import RegionCapture.Tree

/-!
# Walking a tree

The children of a node in source order, and the nodes below a root in pre-order. A walk is told at
each node whether to go below it. Main statement: a walk visits a node and then, if it goes below,
walks its children (`Tree.walk_eq`).
-/

namespace RegionCapture.Tree

def present (ts : List Tree) : List Tree := ts.filter fun t => !t.isHole

/-- The children of a node in source order; the bodies of handler clauses follow the handled
body. -/
def children : Tree → List Tree
  | hole => []
  | module _ _ defs _ => present defs
  | function _ _ _ _ _ body => present [body]
  | lambda _ _ _ _ _ _ body => present [body]
  | blockArg _ _ _ body => present [body]
  | handle _ body handlers _ =>
    present (body :: handlers.flatMap fun h => h.clauses.map Clause.body)
  | cell _ _ init => present [init]
  | binding _ _ _ init => present [init]
  | block _ stmts => present stmts
  | ref _ _ => []
  | assign _ _ value => present [value]
  | call _ callee args blockArgs _ => present (callee :: (args ++ blockArgs))
  | ret _ value _ => present [value]
  | literal _ _ => []
  | cond _ condition consequence alternative => present [condition, consequence, alternative]

/-- A node and, if the walk goes below it, what it visits there. -/
def visit (enter : Tree → Bool) (t : Tree) (below : List Tree) : List Tree :=
  t :: if enter t then below else []

mutual
/-- The nodes visited from a root in pre-order; `enter` decides whether to go below a node. -/
def walk (enter : Tree → Bool) : Tree → List Tree
  | hole => []
  | module i name defs imports => visit enter (module i name defs imports) (walkAll enter defs)
  | function i s ps bs r body => visit enter (function i s ps bs r body) (body.walk enter)
  | lambda i s ps bs r c body => visit enter (lambda i s ps bs r c body) (body.walk enter)
  | blockArg i ps bs body => visit enter (blockArg i ps bs body) (body.walk enter)
  | handle i body hs ty =>
    visit enter (handle i body hs ty) (body.walk enter ++ walkHandlers enter hs)
  | cell i s init => visit enter (cell i s init) (init.walk enter)
  | binding i s ty init => visit enter (binding i s ty init) (init.walk enter)
  | block i stmts => visit enter (block i stmts) (walkAll enter stmts)
  | ref i s => visit enter (ref i s) []
  | assign i s value => visit enter (assign i s value) (value.walk enter)
  | call i callee args bargs ty =>
    visit enter (call i callee args bargs ty)
      (callee.walk enter ++ (walkAll enter args ++ walkAll enter bargs))
  | ret i value ty => visit enter (ret i value ty) (value.walk enter)
  | literal i value => visit enter (literal i value) []
  | cond i c t e => visit enter (cond i c t e) (c.walk enter ++ (t.walk enter ++ e.walk enter))

def walkAll (enter : Tree → Bool) : List Tree → List Tree
  | [] => []
  | t :: ts => t.walk enter ++ walkAll enter ts

def walkHandlers (enter : Tree → Bool) : List Handler → List Tree
  | [] => []
  | ⟨_, _, _, clauses⟩ :: hs => walkClauses enter clauses ++ walkHandlers enter hs

def walkClauses (enter : Tree → Bool) : List Clause → List Tree
  | [] => []
  | ⟨_, _, _, body⟩ :: cs => body.walk enter ++ walkClauses enter cs
end

/-- All nodes of a tree in pre-order (those that `Walk` visits if it is never told to stop). -/
def nodes (t : Tree) : List Tree := t.walk fun _ => true

/-! ## Walks and children -/

theorem walkAll_eq_flatMap (enter : Tree → Bool) (ts : List Tree) :
    walkAll enter ts = ts.flatMap (walk enter) := by
  induction ts with
  | nil => rfl
  | cons t ts ih => simp [walkAll, ih]

theorem walkClauses_eq_flatMap (enter : Tree → Bool) (cs : List Clause) :
    walkClauses enter cs = (cs.map Clause.body).flatMap (walk enter) := by
  induction cs with
  | nil => rfl
  | cons c cs ih => cases c; simp [walkClauses, ih]

theorem walkHandlers_eq_flatMap (enter : Tree → Bool) (hs : List Handler) :
    walkHandlers enter hs = (hs.flatMap fun h => h.clauses.map Clause.body).flatMap
      (walk enter) := by
  induction hs with
  | nil => rfl
  | cons h hs ih => cases h; simp [walkHandlers, walkClauses_eq_flatMap, ih]

/-- Missing nodes contribute nothing to a walk. -/
theorem flatMap_walk_present (enter : Tree → Bool) (ts : List Tree) :
    (present ts).flatMap (walk enter) = ts.flatMap (walk enter) := by
  induction ts with
  | nil => rfl
  | cons t ts ih =>
    have hp : present (t :: ts) = if t.isHole then present ts else t :: present ts := by
      unfold present
      rw [List.filter_cons]
      cases t.isHole <;> rfl
    rw [hp]
    cases t <;> simp [isHole, head?, walk, ih]

/-- A walk visits a node and then, if it goes below, walks its children in order. -/
theorem walk_eq (enter : Tree → Bool) {t : Tree} (h : t.isHole = false) :
    t.walk enter = visit enter t (t.children.flatMap (walk enter)) := by
  cases t with
  | hole => cases h
  | _ => simp [walk, children, flatMap_walk_present, walkAll_eq_flatMap, walkHandlers_eq_flatMap]

end RegionCapture.Tree
