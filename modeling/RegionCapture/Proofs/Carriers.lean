import RegionCapture.Proofs.Readable

/-!
# The nodes that a trace names

A node of a tree is identified by its place: the way from the root to it, with the number of the
child to take at each step. The places of a tree in pre-order are its walk (`Tree.map_snd_places`),
and no two of them have the same way (`Tree.nodup_places`). The items of a trace, in pre-order too,
name some of these places, in order and each a place of its own (`Provenance.Names`). Main statement
`Provenance.explain_names_carriers`: such a place holds a node that carries the region, and every
node on the way to it is named as well or mentions the region.
-/

namespace RegionCapture

/-! ## Items in pre-order -/

mutual
/-- An item and what is nested below it. -/
def TraceItem.preorder : TraceItem → List TraceItem
  | ⟨token, message, children⟩ => ⟨token, message, children⟩ :: preorderTrace children

/-- Items and what is nested below each. -/
def preorderTrace : List TraceItem → List TraceItem
  | [] => []
  | i :: is => i.preorder ++ preorderTrace is
end

namespace Trace

/-- The items of a trace in pre-order. -/
def preorder (t : Trace) : List TraceItem := preorderTrace t

theorem preorder_append (t u : Trace) : preorder (t ++ u) = preorder t ++ preorder u := by
  induction t with
  | nil => rfl
  | cons i t ih =>
    have hcons : ∀ v : Trace, preorder (i :: v) = i.preorder ++ preorder v := fun _ => rfl
    rw [List.cons_append, hcons, hcons, ih, List.append_assoc]

theorem preorder_singleton (token : Token) (message : String) (below : Trace) :
    preorder [⟨token, message, below⟩] = ⟨token, message, below⟩ :: preorder below := by
  simp [preorder, preorderTrace, TraceItem.preorder]

end Trace

/-! ## Places -/

namespace Tree

/-- A place in a tree: which child to take at each step from the root, and the node that stands
there. -/
abbrev Place := List Nat × Tree

/-- The place seen from a node of which the root is a child. -/
def Place.under (i : Nat) (q : Place) : Place := (i :: q.1, q.2)

theorem sizeOf_lt_of_mem_children {t c : Tree} (hc : c ∈ t.children) : sizeOf c < sizeOf t := by
  obtain ⟨task, htask, rfl⟩ := exists_task_of_mem_children hc
  exact sizeOf_lt_of_mem_tasks htask

/-- The places of a tree in pre-order. -/
def places (t : Tree) : List Place :=
  if t.isHole then []
  else ([], t) :: t.children.zipIdx.attach.flatMap fun c => c.1.1.places.map (Place.under c.1.2)
termination_by sizeOf t
decreasing_by exact sizeOf_lt_of_mem_children (List.fst_mem_of_mem_zipIdx c.2)

/-- The places in trees that are the children of one node, the first of them with the given
number. -/
def placesFrom (k : Nat) : List Tree → List Place
  | [] => []
  | t :: ts => t.places.map (Place.under k) ++ placesFrom (k + 1) ts

theorem placesFrom_eq (k : Nat) (ts : List Tree) :
    placesFrom k ts = (ts.zipIdx k).flatMap fun c => c.1.places.map (Place.under c.2) := by
  induction ts generalizing k with
  | nil => rfl
  | cons t ts ih => rw [placesFrom, ih, List.zipIdx_cons, List.flatMap_cons]

theorem places_eq {t : Tree} (h : t.isHole = false) :
    t.places = ([], t) :: placesFrom 0 t.children := by
  have hattach : ∀ (cs : List (Tree × Nat)) (f : Tree × Nat → List Place),
      cs.attach.flatMap (fun c => f c.1) = cs.flatMap f := by
    intro cs f
    rw [← List.flatMap_map Subtype.val f, List.attach_map_subtype_val]
  rw [places, if_neg (Bool.eq_false_iff.1 h), placesFrom_eq]
  exact congrArg (([], t) :: ·) (hattach _ fun c => c.1.places.map (Place.under c.2))

theorem places_hole : hole.places = [] := by
  rw [places]
  rfl

theorem map_snd_placesFrom {ts : List Tree} (h : ∀ t ∈ ts, t.places.map Prod.snd = t.nodes)
    (k : Nat) :
    (placesFrom k ts).map Prod.snd = ts.flatMap nodes := by
  induction ts generalizing k with
  | nil => rfl
  | cons t ts ih =>
    obtain ⟨hfirst, hrest⟩ := List.forall_mem_cons.1 h
    rw [placesFrom, List.map_append, List.map_map, ih hrest, List.flatMap_cons, ← hfirst]
    rfl

/-- The places of a tree are what a walk visits, in its order. -/
theorem map_snd_places (t : Tree) : t.places.map Prod.snd = t.nodes := by
  induction t using induction_on_children with
  | step t ih =>
    cases hhole : t.isHole with
    | true => rw [eq_hole hhole, places_hole]; rfl
    | false => rw [places_eq hhole, nodes_eq_children hhole, List.map_cons, map_snd_placesFrom ih]

/-- The way to a place below children that are numbered from `k` on starts with one of their
numbers. -/
theorem exists_cons_of_mem_placesFrom {k : Nat} {ts : List Tree} {q : Place}
    (h : q ∈ placesFrom k ts) :
    ∃ i a, k ≤ i ∧ q.1 = i :: a := by
  induction ts generalizing k with
  | nil => cases h
  | cons t ts ih =>
    rcases List.mem_append.1 h with h | h
    · obtain ⟨q, -, rfl⟩ := List.mem_map.1 h
      exact ⟨k, q.1, Nat.le_refl k, rfl⟩
    · obtain ⟨i, a, hi, hq⟩ := ih h
      exact ⟨i, a, by omega, hq⟩

theorem nodup_placesFrom {ts : List Tree} (h : ∀ t ∈ ts, (t.places.map Prod.fst).Nodup) (k : Nat) :
    ((placesFrom k ts).map Prod.fst).Nodup := by
  induction ts generalizing k with
  | nil => exact List.nodup_nil
  | cons t ts ih =>
    obtain ⟨hfirst, hrest⟩ := List.forall_mem_cons.1 h
    have hunder : (t.places.map (Place.under k)).map Prod.fst =
        (t.places.map Prod.fst).map (k :: ·) := by
      rw [List.map_map, List.map_map]
      rfl
    rw [placesFrom, List.map_append, hunder]
    have hcons : ((t.places.map Prod.fst).map (k :: ·)).Nodup :=
      List.Pairwise.map _ (fun _ _ hne heq => hne (List.cons.inj heq).2) hfirst
    refine List.nodup_append.2 ⟨hcons, ih hrest (k + 1), ?_⟩
    rintro a ha b hb rfl
    obtain ⟨a, -, rfl⟩ := List.mem_map.1 ha
    obtain ⟨q, hq, hway⟩ := List.mem_map.1 hb
    obtain ⟨i, a', hi, hq⟩ := exists_cons_of_mem_placesFrom hq
    rw [hq] at hway
    cases hway
    omega

/-- No two places of a tree are reached in the same way. -/
theorem nodup_places (t : Tree) : (t.places.map Prod.fst).Nodup := by
  induction t using induction_on_children with
  | step t ih =>
    cases hhole : t.isHole with
    | true =>
      rw [eq_hole hhole, places_hole]
      exact List.nodup_nil
    | false =>
      rw [places_eq hhole, List.map_cons]
      refine List.nodup_cons.2 ⟨fun hroot => ?_, nodup_placesFrom ih 0⟩
      obtain ⟨q, hq, hway⟩ := List.mem_map.1 hroot
      obtain ⟨i, a, -, hq⟩ := exists_cons_of_mem_placesFrom hq
      rw [hq] at hway
      cases hway

end Tree

namespace Provenance

variable {p : Provenance} {r : Region} {levels : Nat} {ps ps' sel sel' : List Tree.Place}
  {items items' : Trace}

/-! ## Items name places -/

/-- There is a node at the end of the way, and it is selected or mentions the region. -/
def Reached (p : Provenance) (r : Region) (ps sel : List Tree.Place) (way : List Nat) : Prop :=
  ∃ n, (way, n) ∈ ps ∧ ((way, n) ∈ sel ∨ p.Mentioned r n)

theorem Reached.mono {way : List Nat} (h : p.Reached r ps sel way) (hps : ps ⊆ ps')
    (hsel : sel ⊆ sel') :
    p.Reached r ps' sel' way := by
  obtain ⟨n, hn, hor⟩ := h
  exact ⟨n, hps hn, hor.imp_left fun hin => hsel hin⟩

/-- The items name the selected places: nodes that carry the region, with only named nodes and nodes
that mention the region on the way to them. The empty way, which leads to the root, is left out. -/
structure Names (p : Provenance) (r : Region) (ps sel : List Tree.Place)
    (items : Trace) : Prop where
  sublist : sel.Sublist ps
  tokens : items.preorder.map TraceItem.token = sel.map fun q => q.2.token
  carries : ∀ q ∈ sel, p.Carries r q.2
  reached : ∀ q ∈ sel, ∀ way, way ≠ [] → way <+: q.1 → p.Reached r ps sel way

theorem names_nil (ps : List Tree.Place) : p.Names r ps [] [] where
  sublist := List.nil_sublist ps
  tokens := rfl
  carries _ hq := absurd hq List.not_mem_nil
  reached _ hq := absurd hq List.not_mem_nil

theorem Names.append (h : p.Names r ps sel items) (h' : p.Names r ps' sel' items') :
    p.Names r (ps ++ ps') (sel ++ sel') (items ++ items') where
  sublist := h.sublist.append h'.sublist
  tokens := by rw [Trace.preorder_append, List.map_append, List.map_append, h.tokens, h'.tokens]
  carries := List.forall_mem_append.2 ⟨h.carries, h'.carries⟩
  reached q hq way hne hway := by
    rcases List.mem_append.1 hq with hq | hq
    · exact (h.reached q hq way hne hway).mono (List.subset_append_left _ _)
        (List.subset_append_left _ _)
    · exact (h'.reached q hq way hne hway).mono (List.subset_append_right _ _)
        (List.subset_append_right _ _)

/-- Seen from one node higher, also the way to the root itself has to be accounted for. -/
theorem Names.under (h : p.Names r ps sel items) (hroot : sel ≠ [] → p.Reached r ps sel [])
    (k : Nat) :
    p.Names r (ps.map (Tree.Place.under k)) (sel.map (Tree.Place.under k)) items where
  sublist := h.sublist.map _
  tokens := by
    rw [h.tokens, List.map_map]
    rfl
  carries _ hmem := by
    obtain ⟨q, hq, rfl⟩ := List.mem_map.1 hmem
    exact h.carries q hq
  reached _ hmem way hne hway := by
    obtain ⟨q, hq, rfl⟩ := List.mem_map.1 hmem
    have hlift : ∀ {way : List Nat}, p.Reached r ps sel way →
        p.Reached r (ps.map (Tree.Place.under k)) (sel.map (Tree.Place.under k)) (k :: way) := by
      rintro way ⟨n, hn, hor⟩
      exact ⟨n, List.mem_map.2 ⟨_, hn, rfl⟩, hor.imp_left fun hin => List.mem_map.2 ⟨_, hin, rfl⟩⟩
    cases way with
    | nil => exact absurd rfl hne
    | cons i way =>
      obtain ⟨rfl, hbelow⟩ := List.cons_prefix_cons.1 hway
      by_cases hnil : way = []
      · rw [hnil]
        exact hlift (hroot (List.ne_nil_of_mem hq))
      · exact hlift (h.reached q hq way hnil hbelow)

/-- A node that becomes an item, with what is found below it. -/
theorem Names.item {t : Tree} {message : String} (h : p.Names r ps sel items)
    (hcarries : p.Carries r t) :
    p.Names r (([], t) :: ps) (([], t) :: sel) [⟨t.token, message, items⟩] where
  sublist := h.sublist.cons_cons _
  tokens := by rw [Trace.preorder_singleton, List.map_cons, List.map_cons, h.tokens]
  carries := List.forall_mem_cons.2 ⟨hcarries, h.carries⟩
  reached q hq way hne hway := by
    rcases List.mem_cons.1 hq with rfl | hq
    · exact absurd (List.prefix_nil.1 hway) hne
    · exact (h.reached q hq way hne hway).mono (List.subset_cons_self _ _)
        (List.subset_cons_self _ _)

/-- A node that is passed through. -/
theorem Names.through (h : p.Names r ps sel items) (t : Tree) :
    p.Names r (([], t) :: ps) sel items where
  sublist := h.sublist.cons _
  tokens := h.tokens
  carries := h.carries
  reached q hq way hne hway :=
    (h.reached q hq way hne hway).mono (List.subset_cons_self _ _) (List.Subset.refl _)

/-! ## Searches -/

/-- The items name places of the tree, and the root is accounted for too. -/
def NamesIn (p : Provenance) (r : Region) (t : Tree) (items : Trace) : Prop :=
  ∃ sel, p.Names r t.places sel items ∧ (sel ≠ [] → p.Reached r t.places sel [])

theorem exists_names_traceAll {ts : List Tree}
    (h : ∀ t ∈ ts, ∀ items, p.trace r levels t = .ok items → p.NamesIn r t items)
    (htrace : p.traceAll r levels ts = .ok items) (k : Nat) :
    ∃ sel, p.Names r (Tree.placesFrom k ts) sel items := by
  induction ts generalizing items k with
  | nil =>
    cases htrace
    exact ⟨[], names_nil _⟩
  | cons t ts ih =>
    obtain ⟨hfirst, hrest⟩ := List.forall_mem_cons.1 h
    rw [traceAll] at htrace
    obtain ⟨first, htfirst, htrace⟩ := bind_eq_ok.1 htrace
    obtain ⟨rest, htrest, htrace⟩ := bind_eq_ok.1 htrace
    cases htrace
    obtain ⟨sel, hsel, hroot⟩ := hfirst first htfirst
    obtain ⟨sel', hsel'⟩ := ih hrest htrest (k + 1)
    exact ⟨_, (hsel.under hroot k).append hsel'⟩

/-- The items that a search finds in a tree name places of the tree. -/
theorem namesIn_of_trace {t : Tree} (h : p.trace r levels t = .ok items) : p.NamesIn r t items := by
  induction t using Tree.induction_on_children generalizing levels items with
  | step t ih =>
    have hempty : p.NamesIn r t [] := ⟨[], names_nil _, fun hne => absurd rfl hne⟩
    cases hhole : t.isHole with
    | true =>
      rw [Tree.eq_hole hhole, trace_hole] at h
      cases h
      exact hempty
    | false =>
      cases levels with
      | zero =>
        rw [trace_zero] at h
        cases h
        exact hempty
      | succ levels =>
        have hbelow : ∀ {levels items}, p.traceAll r levels t.children = .ok items →
            ∃ sel, p.Names r (Tree.placesFrom 0 t.children) sel items := fun hall =>
          exists_names_traceAll (fun c hc _ => ih c hc) hall 0
        cases p.finding (r := r) hhole with
        | item message carries trace =>
          rw [trace] at h
          obtain ⟨below, hall, h⟩ := bind_eq_ok.1 h
          cases h
          obtain ⟨sel, hsel⟩ := hbelow hall
          rw [NamesIn, Tree.places_eq hhole]
          exact ⟨_, hsel.item carries, fun _ => ⟨t, List.mem_cons_self, .inl List.mem_cons_self⟩⟩
        | through mentioned trace =>
          rw [trace] at h
          obtain ⟨sel, hsel⟩ := hbelow h
          rw [NamesIn, Tree.places_eq hhole]
          exact ⟨sel, hsel.through t, fun _ => ⟨t, List.mem_cons_self, .inr mentioned⟩⟩
        | skipped childless trace =>
          rw [trace] at h
          cases h
          exact hempty
        | fault type returned unreadable trace => exact absurd h (trace levels items)

/-- If the types of the values that a tree returns can be read, there is a trace. Its items in
pre-order stand, with the same tokens, for nodes that a walk visits, in the order of the walk and
each for a node of its own. These nodes carry the region, and every node on the way from the root to
one of them is one of them or mentions the region. -/
theorem explain_names_carriers (p : Provenance) (r : Region) (root : Tree) :
    (root.ReturnsReadable p.table → ∃ trace, p.explain r root = .ok trace) ∧
    ∀ trace, p.explain r root = .ok trace → ∃ sel : List Tree.Place,
      sel.Sublist root.places ∧ (sel.map Prod.snd).Sublist root.nodes ∧ (sel.map Prod.fst).Nodup ∧
      trace.preorder.map TraceItem.token = sel.map (fun q => q.2.token) ∧
      ∀ q ∈ sel, p.Carries r q.2 ∧
        ∀ way, way <+: q.1 → ∃ n, (way, n) ∈ root.places ∧ ((way, n) ∈ sel ∨ p.Mentioned r n) := by
  refine ⟨fun hread => exists_trace hread _, fun trace htrace => ?_⟩
  obtain ⟨sel, hsel, hroot⟩ := namesIn_of_trace htrace
  refine ⟨sel, hsel.sublist, ?_, ?_, hsel.tokens,
    fun q hq => ⟨hsel.carries q hq, fun way hway => ?_⟩⟩
  · rw [← Tree.map_snd_places]
    exact hsel.sublist.map _
  · exact (Tree.nodup_places root).sublist (hsel.sublist.map _)
  · by_cases hnil : way = []
    · rw [hnil]
      exact hroot (List.ne_nil_of_mem hq)
    · exact hsel.reached q hq way hnil hway

/-- Two function values that refer to the owner of a region, the first of them in a value that it
returns. -/
def twoClosures : Tree :=
  .block ⟨1, { lexeme := "do" }⟩ [
    .lambda ⟨2, { lexeme := "first" }⟩ 2 [] [] .absent none
      (.ret ⟨3, { lexeme := "return" }⟩ (.ref ⟨4, { lexeme := "used" }⟩ 7) (.con "Int" "")),
    .lambda ⟨5, { lexeme := "second" }⟩ 3 [] [] .absent none (.ref ⟨6, { lexeme := "hidden" }⟩ 7)]

/-- A search in which the annotations of the second function value do not mention the region. -/
def seeingFirst : Provenance where
  symbols := {}
  annotations := [1, 2, 3].foldl (fun a id => a.annotateNode id (.singleton 7)) {}
  table := {}
  maxDepth := 16

theorem returnsReadable_twoClosures : twoClosures.ReturnsReadable {} := by
  intro n hn type htype
  have hreturned : twoClosures.nodes.filterMap Tree.returned? = [.con "Int" ""] := rfl
  have hmem := List.mem_filterMap.2 ⟨n, hn, htype⟩
  rw [hreturned] at hmem
  rw [List.mem_singleton.1 hmem]
  exact ⟨trivial, trivial⟩

/-- The reference in the second function value is not named, though it carries the region: the way
to it leads through a node that neither becomes an item nor mentions the region. The block and the
returned value are passed through. -/
theorem explain_names_carriers_twoClosures :
    twoClosures.ReturnsReadable {} ∧ twoClosures.nodes.length = 6 ∧
    ∃ trace, seeingFirst.explain 7 twoClosures = .ok trace ∧
      ∃ sel : List Tree.Place, sel.Sublist twoClosures.places ∧
        sel.map (fun q => q.2.token.lexeme) = ["first", "used"] ∧
        ∀ q ∈ sel, seeingFirst.Carries 7 q.2 := by
  obtain ⟨hexists, hnames⟩ := explain_names_carriers seeingFirst 7 twoClosures
  obtain ⟨trace, htrace⟩ := hexists returnsReadable_twoClosures
  obtain ⟨sel, hsel, -, -, htokens, hcarries⟩ := hnames trace htrace
  refine ⟨returnsReadable_twoClosures, by decide, trace, htrace, sel, hsel, ?_,
    fun q hq => (hcarries q hq).1⟩
  have hlexemes : (seeingFirst.explain 7 twoClosures).toOption.map
      (fun trace => trace.preorder.map fun i => i.token.lexeme) = some ["first", "used"] := by
        decide +kernel
  rw [htrace] at hlexemes
  have hlist : (trace.preorder.map TraceItem.token).map Token.lexeme = ["first", "used"] := by
    rw [List.map_map]
    exact Option.some.inj hlexemes
  rw [htokens, List.map_map] at hlist
  exact hlist

end Provenance

end RegionCapture
