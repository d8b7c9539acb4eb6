import RegionCapture.Check

/-!
# The outline of the traversal

Every node is checked in three steps: some symbols are annotated when it is entered, the trees below
it are checked in order in one scope, and then the node itself is decided from the regions found
below. `Check.node_eq` shows the traversal to be of this form at every node, so that what follows
needs no case split over nodes except for what entering and leaving a node do. The trees below a
node are its children (`Tree.children_eq_present`), and an induction may go from them to the node
(`Tree.induction_on_tasks`).
-/

namespace RegionCapture

/-- A tree to be checked below a node. The body of a handler clause comes with its resumption. -/
structure Task where
  resume : Option SymbolId
  tree : Tree

namespace Tree

/-- The task of a tree that is not the body of a clause. -/
def task (t : Tree) : Task := ⟨none, t⟩

/-- The tasks of a handler. -/
def clauseTasks (h : Handler) : List Task := h.clauses.map fun c => ⟨some c.resume, c.body⟩

/-- The trees to be checked below a node, in order. -/
def tasks : Tree → List Task
  | hole => []
  | module _ _ defs _ => defs.map task
  | function _ _ _ _ _ body => [body.task]
  | lambda _ _ _ _ _ _ body => [body.task]
  | blockArg _ _ _ body => [body.task]
  | handle _ body handlers _ => body.task :: handlers.flatMap clauseTasks
  | cell _ _ init => [init.task]
  | binding _ _ _ init => [init.task]
  | block _ stmts => stmts.map task
  | ref _ _ => []
  | assign _ _ value => [value.task]
  | call _ callee args blockArgs _ => callee.task :: (args ++ blockArgs).map task
  | ret _ value _ => [value.task]
  | literal _ _ => []
  | cond _ condition consequence alternative => [condition.task, consequence.task, alternative.task]

def regionsOf (binders : List SymbolId) : RegionSet := .ofList (binders.map Region.ofSymbol)

/-- Every binder annotated with its own region. -/
def ownRegions (binders : List SymbolId) (a : Annotations) : Annotations :=
  binders.foldl (fun a b => a.annotateSymbol b (.singleton (.ofSymbol b))) a

/-- The scope of the trees below a node. -/
def inner (scope : Scope) : Tree → Scope
  | function _ symbol _ blocks _ _ => scope.enterDefinition (.ofSymbol symbol) (regionsOf blocks)
  | lambda _ symbol _ blocks _ _ _ => scope.enterDefinition (.ofSymbol symbol) (regionsOf blocks)
  | blockArg _ _ blocks _ => scope.enterBlock (regionsOf blocks)
  | handle _ _ handlers _ => scope.enterHandler (regionsOf (handlers.map Handler.capability))
  | _ => scope

/-- The annotations after a node is entered. -/
def entry (scope : Scope) : Tree → Annotations → Annotations
  | function _ symbol _ blocks _ _, a => ownRegions blocks (a.annotateSymbol symbol scope.static)
  | lambda _ symbol _ blocks _ _ _, a => ownRegions blocks (a.annotateSymbol symbol scope.static)
  | blockArg _ _ blocks _, a => ownRegions blocks a
  | handle _ _ handlers _, a => ownRegions (handlers.map Handler.capability) a
  | cell _ symbol _, a => a.annotateSymbol symbol scope.dynamic
  | _, a => a

/-- The regions that a binder binds in the trees below it. -/
def bound : Tree → Option RegionSet
  | function _ symbol _ blocks _ _ => some ((regionsOf blocks).add (.ofSymbol symbol))
  | lambda _ symbol _ blocks _ _ _ => some ((regionsOf blocks).add (.ofSymbol symbol))
  | blockArg _ _ blocks _ => some (regionsOf blocks)
  | handle _ _ handlers _ => some (regionsOf (handlers.map Handler.capability))
  | _ => none

/-- The annotations after a binder is left. -/
def markScope (t : Tree) (a : Annotations) : Annotations := t.bound.elim a (a.annotateScope t.id)

/-- The regions of a node, by those of the trees below it and of the symbol it names. -/
def region (regs : List RegionSet) (a : Annotations) : Tree → RegionSet
  | ref _ symbol => a.symbolRegion symbol
  | assign _ symbol _ => a.symbolRegion symbol ∪ Check.unionAll regs
  | t => Check.unionAll regs \ t.bound.getD ∅

/-- The identity and the place of a node that is there. -/
def anchor (t : Tree) : Anchor := ⟨t.id, t.token⟩

/-! ## The trees below a node -/

theorem children_eq_present (t : Tree) : t.children = present (t.tasks.map Task.tree) := by
  cases t with
  | handle info body handlers type =>
    simp [children, tasks, task, clauseTasks, List.map_flatMap, Function.comp_def]
  | _ => simp [children, tasks, task, Function.comp_def, present]

/-- The nodes of a tree are the tree itself and the nodes of the trees below it. -/
theorem nodes_eq {t : Tree} (h : t.isHole = false) :
    t.nodes = t :: t.tasks.flatMap fun c => c.tree.nodes := by
  have hbelow : (t.tasks.map Task.tree).flatMap (walk fun _ => true) =
      t.tasks.flatMap fun c => c.tree.nodes :=
    List.flatMap_map ..
  rw [nodes, walk_eq _ h, children_eq_present, flatMap_walk_present, hbelow]
  rfl

theorem mem_nodes {t n : Tree} :
    n ∈ t.nodes ↔ t.isHole = false ∧ (n = t ∨ ∃ c ∈ t.tasks, n ∈ c.tree.nodes) := by
  cases h : t.isHole with
  | true =>
    cases t with
    | hole => simp [nodes, walk]
    | _ => cases h
  | false => simp [nodes_eq h]

theorem sizeOf_lt_of_mem_clauseTasks {h : Handler} {c : Task} (hc : c ∈ clauseTasks h) :
    sizeOf c.tree < sizeOf h := by
  obtain ⟨_, _, _, clauses⟩ := h
  obtain ⟨cl, hcl, rfl⟩ := List.mem_map.1 hc
  have hlist := List.sizeOf_lt_of_mem hcl
  obtain ⟨_, _, _, body⟩ := cl
  simp only [Handler.mk.sizeOf_spec, Clause.mk.sizeOf_spec] at hlist ⊢
  omega

theorem sizeOf_lt_of_mem_tasks {t : Tree} {c : Task} (hc : c ∈ t.tasks) :
    sizeOf c.tree < sizeOf t := by
  have hmem : ∀ {us : List Tree} {c : Task}, c ∈ us.map task → sizeOf c.tree < sizeOf us := by
    rintro us _ hc
    obtain ⟨u, hu, rfl⟩ := List.mem_map.1 hc
    exact List.sizeOf_lt_of_mem hu
  cases t with
  | hole => simp [tasks] at hc
  | ref => simp [tasks] at hc
  | literal => simp [tasks] at hc
  | module info name defs imports =>
    have := hmem hc
    simp only [module.sizeOf_spec]
    omega
  | block info stmts =>
    have := hmem hc
    simp only [block.sizeOf_spec]
    omega
  | call info callee args blockArgs type =>
    simp only [tasks, List.map_append, List.mem_cons, List.mem_append] at hc
    simp only [call.sizeOf_spec]
    rcases hc with rfl | hc | hc
    · simp only [task]
      omega
    · have := hmem hc
      omega
    · have := hmem hc
      omega
  | handle info body handlers type =>
    simp only [tasks, List.mem_cons, List.mem_flatMap] at hc
    simp only [handle.sizeOf_spec]
    rcases hc with rfl | ⟨h, hh, hc⟩
    · simp only [task]
      omega
    · have := sizeOf_lt_of_mem_clauseTasks hc
      have := List.sizeOf_lt_of_mem hh
      omega
  | _ =>
    simp only [tasks, List.mem_cons, List.not_mem_nil, or_false] at hc
    rcases hc with rfl | rfl | rfl <;> simp [task] <;> omega

/-- What holds of a tree whenever it holds of all trees below it holds of every tree. -/
theorem induction_on_tasks {P : Tree → Prop} (step : ∀ t, (∀ c ∈ t.tasks, P c.tree) → P t)
    (t : Tree) : P t :=
  step t fun c _ => induction_on_tasks step c.tree
termination_by sizeOf t
decreasing_by exact sizeOf_lt_of_mem_tasks ‹c ∈ t.tasks›

end Tree

namespace Check

/-- Checks the trees below a node, each resumption being annotated before the body of its clause. -/
def tasks (env : CheckEnv) (scope : Scope) : List Task → Check (List RegionSet)
  | [] => return []
  | ⟨resume, t⟩ :: ts => do
    annotate fun a => resume.elim a fun r => a.annotateSymbol r scope.dynamic
    let reg ← node env scope t
    return reg :: (← tasks env scope ts)

/-- What a node is checked for once its regions are found. -/
def settle (env : CheckEnv) (regs : List RegionSet) (reg : RegionSet) : Tree → Check Unit
  | .function info symbol _ blocks result body => do
    definitionEscape env info.token symbol result
      ((capabilities env blocks).add (.ofSymbol symbol)) body
    annotate fun a => a.annotateSymbol symbol reg
  | .lambda info symbol _ blocks result slot body => do
    matchSlot env info.token slot reg body
    definitionEscape env info.token symbol result
      ((capabilities env blocks).add (.ofSymbol symbol)) body
    annotate fun a => a.annotateSymbol symbol reg
  | .handle info body handlers type =>
    handlerEscape env info.token handlers type
      (Tree.regionsOf (handlers.map Handler.capability)) body
  | .binding info symbol type _ => do
    solveAt env info.token
    let own ← orFault (type.freeRegions (← table))
    annotate fun a => a.annotateSymbol symbol own
  | .call info callee args _ type =>
    match calleeSignature env callee with
    | some sig => instantiate env info.token sig (regs.drop (args.length + 1)) type
    | none => pure ()
  | _ => pure ()

/-- Decides a node from the regions of the trees below it. -/
def leave (env : CheckEnv) (scope : Scope) (regs : List RegionSet) (t : Tree) :
    Check RegionSet := do
  annotate t.markScope
  let reg := t.region regs (← get).annotations
  settle env regs reg t
  record env scope t.anchor reg

/-! ## Unions -/

theorem mem_unionAll {r : Region} {regs : List RegionSet} :
    r ∈ unionAll regs ↔ ∃ reg ∈ regs, r ∈ reg := by
  have h : ∀ acc : RegionSet, r ∈ regs.foldl (· ∪ ·) acc ↔ r ∈ acc ∨ ∃ reg ∈ regs, r ∈ reg := by
    induction regs with
    | nil => simp
    | cons reg regs ih => intro acc; simp [ih, or_assoc]
  exact (h ∅).trans (by simp)

@[simp] theorem unionAll_singleton (reg : RegionSet) : unionAll [reg] = reg :=
  RegionSet.ext_mem fun r => by simp [mem_unionAll]

theorem unionAll_cons (reg : RegionSet) (regs : List RegionSet) :
    unionAll (reg :: regs) = reg ∪ unionAll regs :=
  RegionSet.ext_mem fun r => by simp [mem_unionAll]

theorem unionAll_append (regs regs' : List RegionSet) :
    unionAll (regs ++ regs') = unionAll regs ∪ unionAll regs' :=
  RegionSet.ext_mem fun r => by simp [mem_unionAll, or_and_right, exists_or]

theorem sdiff_empty (reg : RegionSet) : reg \ ∅ = reg := RegionSet.ext_mem fun r => by simp

theorem remove_sdiff (reg bound : RegionSet) (r : Region) :
    (reg \ bound).remove r = reg \ bound.add r :=
  RegionSet.ext_mem fun q => by simp [and_assoc, and_comm (a := q ≠ r)]

/-! ## The traversal in outline -/

section
variable (env : CheckEnv) (scope : Scope)

theorem tasks_task_cons (t : Tree) (ts : List Task) : tasks env scope (t.task :: ts) =
    (do let reg ← node env scope t; return reg :: (← tasks env scope ts)) := rfl

theorem tasks_map_task (ts : List Tree) :
    tasks env scope (ts.map Tree.task) = nodes env scope ts := by
  induction ts with
  | nil => rfl
  | cons t ts ih => simp only [List.map_cons, tasks_task_cons, nodes, ih]

theorem tasks_append (ts us : List Task) :
    tasks env scope (ts ++ us) = do return (← tasks env scope ts) ++ (← tasks env scope us) := by
  induction ts with
  | nil => simp [tasks]
  | cons t ts ih => simp [tasks, ih]

theorem clauseNodes_eq (cs : List Clause) : clauseNodes env scope cs =
    do return unionAll (← tasks env scope (cs.map fun c => ⟨some c.resume, c.body⟩)) := by
  induction cs with
  | nil => rfl
  | cons c cs ih =>
    obtain ⟨_, _, resume, body⟩ := c
    simp only [clauseNodes, ih, List.map_cons, tasks, Option.elim, bind_assoc, pure_bind,
      unionAll_cons]

theorem handlerNodes_eq (hs : List Handler) : handlerNodes env scope hs =
    do return unionAll (← tasks env scope (hs.flatMap Tree.clauseTasks)) := by
  induction hs with
  | nil => rfl
  | cons h hs ih =>
    obtain ⟨_, _, _, clauses⟩ := h
    simp only [handlerNodes, clauseNodes_eq, ih, List.flatMap_cons, tasks_append, bind_assoc,
      pure_bind, unionAll_append, Tree.clauseTasks]

/-- What follows a list of nodes may rely on getting one region set per node. -/
theorem nodes_bind_congr {α : Type} (ts : List Tree) {f g : List RegionSet → Check α}
    (h : ∀ regs, regs.length = ts.length → f regs = g regs) :
    (nodes env scope ts >>= f) = (nodes env scope ts >>= g) := by
  induction ts generalizing f g with
  | nil => simpa [nodes] using h [] rfl
  | cons t ts ih =>
    simp only [nodes, bind_assoc, pure_bind]
    congr 1
    funext reg
    exact ih fun regs hregs => h _ (by simp [hregs])

/-- The blocks of a call are checked last, so their regions stand at the end. -/
theorem drop_callRegions {first : RegionSet} {second third : List RegionSet} {args : List Tree}
    (hlen : second.length = args.length) :
    (first :: (second ++ third)).drop (args.length + 1) = third := by
  simp [← hlen]

/-- At a node that is there: enter it, check the trees below it, and leave it. -/
theorem node_eq {t : Tree} (h : t.isHole = false) : node env scope t = (do
    annotate (t.entry scope)
    let regs ← tasks env (t.inner scope) t.tasks
    leave env scope regs t) := by
  cases t with
  | hole => cases h
  | ref | literal => rfl
  | module | block =>
    simp only [node, Tree.tasks, tasks_map_task, leave, Tree.region, Tree.bound, Option.getD_none,
      sdiff_empty]
    rfl
  | function | lambda =>
    simp only [node, Tree.tasks, tasks_task_cons, tasks, pure_bind, bind_assoc, leave, settle,
      Tree.region, Tree.bound, Option.getD_some, unionAll_singleton, remove_sdiff]
    rfl
  | blockArg | cell | binding | assign | ret | cond =>
    simp only [node, Tree.tasks, tasks_task_cons, tasks, pure_bind, bind_assoc, leave, settle,
      Tree.region, Tree.bound, Option.getD_none, Option.getD_some, unionAll_singleton, sdiff_empty]
    rfl
  | handle =>
    simp only [node, Tree.tasks, tasks_task_cons, handlerNodes_eq, pure_bind, bind_assoc,
      leave, settle, Tree.region, Tree.bound, Option.getD_some, unionAll_cons]
    rfl
  | call info callee args blockArgs type =>
    simp only [node, Tree.tasks, tasks_task_cons, List.map_append, tasks_append, tasks_map_task,
      pure_bind, bind_assoc]
    show _ = (node env scope callee >>= _)
    congr 1
    funext first
    refine nodes_bind_congr env scope args fun second hlen => ?_
    congr 1
    funext third
    simp only [leave, settle, drop_callRegions hlen, Tree.region, Tree.bound, Option.getD_none,
      sdiff_empty]
    cases calleeSignature env callee <;> rfl

end

end Check

end RegionCapture
