import RegionCapture.Proofs.DepthLimit
import RegionCapture.Proofs.Origin

/-!
# The nesting of reported traces

The options limit how deep the items of an explanation may nest. A search keeps to the limit
(`Provenance.depth_le_of_trace`), and so does every diagnostic that has the traces of searches as
they are found (`Check.Shallow`). A capability that leaves its handler is reported in another way:
its trace stands below an item of its own, and nothing makes up for that level (`Check.LetsOut`). So
the limit is kept except where such a trace takes up all levels by itself. Main statement
`Module.nesting_limited`; a unit whose trace is nested too deep is `Module.nesting_exceeded`.
-/

namespace RegionCapture

/-- The results of reading all elements of a list are those of the single elements. -/
theorem mapM_eq_ok {ε α β : Type} {f : α → Except ε β} {xs : List α} {ys : List β}
    (h : xs.mapM f = .ok ys) :
    (∀ y ∈ ys, ∃ x ∈ xs, f x = .ok y) ∧ ∀ x ∈ xs, ∃ y ∈ ys, f x = .ok y := by
  induction xs generalizing ys with
  | nil =>
    cases h
    simp
  | cons x xs ih =>
    rw [List.mapM_cons] at h
    obtain ⟨y, hy, h⟩ := bind_eq_ok.1 h
    obtain ⟨rest, hrest, h⟩ := bind_eq_ok.1 h
    cases h
    obtain ⟨hback, hforth⟩ := ih hrest
    constructor
    · intro z hz
      rcases List.mem_cons.1 hz with rfl | hz
      · exact ⟨x, List.mem_cons_self, hy⟩
      · obtain ⟨x', hx', hfx'⟩ := hback z hz
        exact ⟨x', List.mem_cons_of_mem x hx', hfx'⟩
    · intro x' hx'
      rcases List.mem_cons.1 hx' with rfl | hx'
      · exact ⟨y, List.mem_cons_self, hy⟩
      · obtain ⟨z, hz, hfz⟩ := hforth x' hx'
        exact ⟨z, List.mem_cons_of_mem y hz, hfz⟩

/-! ## Levels of traces -/

theorem TraceItem.depth_eq (i : TraceItem) : i.depth = Trace.depth i.children + 1 := by
  cases i
  rfl

namespace Trace

@[simp] theorem depth_nil : depth [] = 0 := rfl

theorem depth_le_iff {n : Nat} {t : Trace} : t.depth ≤ n ↔ ∀ i ∈ t, i.depth ≤ n := by
  induction t with
  | nil => simp
  | cons i t ih =>
    have hcons : depth (i :: t) = max i.depth (depth t) := rfl
    rw [hcons, Nat.max_le, ih, List.forall_mem_cons]

theorem depth_flatten_le {n : Nat} {ts : List Trace} (h : ∀ t ∈ ts, depth t ≤ n) :
    depth ts.flatten ≤ n := by
  rw [depth_le_iff]
  intro i hi
  obtain ⟨t, ht, hi⟩ := List.mem_flatten.1 hi
  exact depth_le_iff.1 (h t ht) i hi

end Trace

namespace Provenance

variable {p : Provenance} {r : Region} {root : Tree} {items : Trace}

/-- A search does not find more levels than it may. -/
theorem depth_le_of_trace {levels : Nat} (h : p.trace r levels root = .ok items) :
    items.depth ≤ levels := by
  have hcut := trace_cut (Nat.le_refl levels) h
  rw [h] at hcut
  rw [Except.ok.inj hcut]
  exact traceDepth_cut_le levels items

theorem depth_le_of_explain (h : p.explain r root = .ok items) : items.depth ≤ p.maxDepth.toNat :=
  depth_le_of_trace h

theorem depth_le_of_explainEach {rs : RegionSet} (h : p.explainEach root rs = .ok items) :
    items.depth ≤ p.maxDepth.toNat := by
  unfold explainEach at h
  obtain ⟨traces, htraces, h⟩ := bind_eq_ok.1 h
  cases h
  apply Trace.depth_flatten_le
  intro t ht
  obtain ⟨r, -, hexplain⟩ := (mapM_eq_ok htraces).1 t ht
  exact depth_le_of_explain hexplain

end Provenance

namespace Check

variable {α β : Type} {x : Check α} {f : α → Check β} {s s' : CheckState} {d : Diagnostic}
  {env : CheckEnv} {token : Token} {type : Ty} {body : Tree}
  {reg bound leaked : RegionSet} {n : Nat}

/-! ## Steps that keep to the limit -/

/-- What the step rejects with is no escape from a handler, and its trace has at most so many
levels. -/
def Shallow (n : Nat) (x : Check α) : Prop :=
  ∀ s d s', Rejects x s d s' → d.code ≠ .handlerEscape ∧ d.trace.depth ≤ n

theorem Shallow.bind (hx : Shallow n x) (hf : ∀ s a s', Yields x s a s' → Shallow n (f a)) :
    Shallow n (x >>= f) := by
  intro s d s' h
  rcases rejects_bind.1 h with h | ⟨a, s₁, hyields, h⟩
  · exact hx s d s' h
  · exact hf s a s₁ hyields s₁ d s' h

theorem Reads.shallow (hx : Reads x) : Shallow n x :=
  fun s d _ h => absurd (congrArg Prod.fst h) ((hx s).2 d)

theorem shallow_modify {g : CheckState → CheckState} : Shallow n (modify g : Check Unit) :=
  fun _ _ _ h => absurd h not_rejects_modify

theorem shallow_reject (hcode : d.code ≠ .handlerEscape) (h : d.trace.depth ≤ n) :
    Shallow n (reject d : Check α) := by
  intro s e s' he
  rw [(rejects_reject he).1]
  exact ⟨hcode, h⟩

theorem shallow_ite {p : Prop} [Decidable p] {x y : Check α} (hx : Shallow n x) (hy : Shallow n y) :
    Shallow n (if p then x else y) := by
  split
  · exact hx
  · exact hy

/-- Equations that cannot be solved are reported without a trace. -/
theorem shallow_solveAt : Shallow n (solveAt env token) := by
  intro s d s' h
  rw [Rejects, outcome_solveAt] at h
  have hout := congrArg Prod.fst h
  cases hsolve : s.store.solve.1 with
  | ok => simp [hsolve] at hout
  | error e =>
    rw [hsolve] at hout
    cases e <;> cases hout <;> simp [Diagnostic.make]

section
variable (hn : env.options.explain.maxDepth.toNat ≤ n)
include hn

theorem depth_le_of_yields_explainEach {rs : RegionSet} {trace : Trace}
    (h : Yields (explainEach env rs body) s trace s') : trace.depth ≤ n := by
  by_cases hexplains : env.options.explains = true
  · have hfound := yields_explainEach_of_explains hexplains h
    exact Nat.le_trans (Provenance.depth_le_of_explainEach hfound) hn
  · rw [explainEach, if_neg hexplains] at h
    rw [← (yields_pure.1 h).1]
    simp

/-- A diagnostic with the traces of regions, one after the other. -/
theorem shallow_explained {rs : RegionSet} {e : Diagnostic} (hcode : e.code ≠ .handlerEscape) :
    Shallow n (explainEach env rs body >>= fun trace =>
      (reject { e with trace } : Check Unit)) := by
  refine (reads_explainEach rs body).shallow.bind fun s trace s' h => shallow_reject hcode ?_
  exact depth_le_of_yields_explainEach hn h

theorem shallow_definitionEscape {symbol : SymbolId} :
    Shallow n (definitionEscape env token symbol type bound body) := by
  dsimp only [definitionEscape]
  refine shallow_solveAt.bind fun _ _ _ _ => reads_table.shallow.bind fun _ _ _ _ =>
    (reads_orFault _).shallow.bind fun _ _ _ _ => ?_
  exact shallow_ite (reads_pure ()).shallow (shallow_explained hn nofun)

theorem shallow_matchSlot {slot : Option Term} : Shallow n (matchSlot env token slot reg body) := by
  cases slot with
  | none => exact (reads_pure ()).shallow
  | some term =>
    refine reads_table.shallow.bind fun _ _ _ _ =>
      (reads_orFault _).shallow.bind fun _ seen _ _ => ?_
    cases seen with
    | set expected =>
      refine shallow_ite (reads_pure ()).shallow (reads_provenance.shallow.bind fun _ _ _ _ => ?_)
      exact shallow_explained hn nofun
    | var v => exact shallow_modify.bind fun _ _ _ _ => shallow_solveAt

end

theorem shallow_instantiate {sig : CallSignature} {regs : List RegionSet} :
    Shallow n (instantiate env token sig regs type) := by
  unfold instantiate
  refine shallow_ite (reads_pure ()).shallow (reads_table.shallow.bind fun _ _ _ _ => ?_)
  exact (reads_orFault _).shallow.bind fun _ _ _ _ => shallow_modify.bind fun _ _ _ _ =>
    shallow_solveAt

theorem shallow_record {scope : Scope} {info : Anchor} : Shallow n (record env scope info reg) := by
  have hmark : Shallow n (do
      modify fun s : CheckState =>
        { s with annotations := s.annotations.annotateNode info.id reg, nodes := s.nodes + 1 }
      return reg : Check RegionSet) := shallow_modify.bind fun _ _ _ _ => (reads_pure reg).shallow
  unfold record
  cases env.options.verifyScopes with
  | false => exact hmark
  | true =>
    refine Shallow.bind (shallow_ite (reads_pure ()).shallow ?_) fun _ _ _ _ => hmark
    exact reads_provenance.shallow.bind fun _ _ _ _ =>
      shallow_reject nofun (by simp [Diagnostic.make])

/-- Apart from handlers, every node keeps to the limit. -/
theorem shallow_settle (hn : env.options.explain.maxDepth.toNat ≤ n) {t : Tree}
    {regs : List RegionSet} (hkind : t.kind? ≠ some .handle) :
    Shallow n (settle env regs reg t) := by
  cases t with
  | handle => exact absurd rfl hkind
  | function => exact (shallow_definitionEscape hn).bind fun _ _ _ _ => shallow_modify
  | lambda =>
    exact (shallow_matchSlot hn).bind fun _ _ _ _ =>
      (shallow_definitionEscape hn).bind fun _ _ _ _ => shallow_modify
  | binding =>
    refine shallow_solveAt.bind fun _ _ _ _ => reads_table.shallow.bind fun _ _ _ _ => ?_
    exact (reads_orFault _).shallow.bind fun _ _ _ _ => shallow_modify
  | call info callee =>
    simp only [settle]
    cases calleeSignature env callee with
    | none => exact (reads_pure ()).shallow
    | some sig => exact shallow_instantiate
  | _ => exact (reads_pure ()).shallow

/-! ## Handlers -/

/-- A handled expression is refused: once the equations are solved, its type mentions the given ones
of the bound capabilities. If explanations are wanted, the trace has an item for every one of them
that is found in the body, with the trace that is found below it, and no other items. -/
structure LetsOut (env : CheckEnv) (token : Token) (type : Ty) (bound : RegionSet) (body : Tree)
    (s : CheckState) (d : Diagnostic) (s' : CheckState) (leaked : RegionSet) : Prop where
  solved : Yields (solveAt env token) s () s'
  mentions : ∃ free, type.freeRegions s'.store.table = .ok free ∧ leaked = free ∩ bound
  unexplained : env.options.explains = false → d.trace = []
  items : env.options.explains = true → ∀ i ∈ d.trace, ∃ r ∈ leaked,
    (provenanceIn env s').explain r body = .ok i.children
  explained : env.options.explains = true → ∀ r ∈ leaked, ∃ below,
    (provenanceIn env s').explain r body = .ok below ∧
    (below = [] ∨ ∃ i ∈ d.trace, i.children = below)

/-- The trace of capabilities that leave a handler has one item for each that is found. -/
theorem yields_handlerTrace {handlers : List Handler} {trace : Trace}
    (hexplains : env.options.explains = true)
    (h : Yields (handlerTrace env token handlers leaked body) s trace s') :
    (∀ i ∈ trace, ∃ r ∈ leaked, (provenanceIn env s).explain r body = .ok i.children) ∧
    ∀ r ∈ leaked, ∃ below, (provenanceIn env s).explain r body = .ok below ∧
      (below = [] ∨ ∃ i ∈ trace, i.children = below) := by
  unfold handlerTrace at h
  rw [if_pos hexplains] at h
  obtain ⟨p, s₁, hread, h⟩ := yields_bind.1 h
  cases hread
  rw [mapM_orFault] at h
  obtain ⟨parts, s₂, hparts, h⟩ := yields_bind.1 h
  obtain ⟨rfl, -⟩ := yields_pure.1 h
  obtain ⟨hback, hforth⟩ := mapM_eq_ok (yields_orFault.1 hparts).1
  constructor
  · intro i hi
    obtain ⟨part, hpart, hi⟩ := List.mem_flatten.1 hi
    obtain ⟨r, hr, hitem⟩ := hback part hpart
    obtain ⟨below, hbelow, hitem⟩ := bind_eq_ok.1 hitem
    cases hitem
    split at hi
    · cases hi
    · rw [List.mem_singleton.1 hi]
      exact ⟨r, hr, hbelow⟩
  · intro r hr
    obtain ⟨part, hpart, hitem⟩ := hforth r hr
    obtain ⟨below, hbelow, hitem⟩ := bind_eq_ok.1 hitem
    cases hitem
    refine ⟨below, hbelow, ?_⟩
    by_cases hempty : below = []
    · exact .inl hempty
    · rw [if_neg (by simpa using hempty)] at hpart
      exact .inr ⟨_, List.mem_flatten.2 ⟨_, hpart, List.mem_singleton_self _⟩, rfl⟩

/-- A handled expression is refused because its equations cannot be solved, or because capabilities
leave it. -/
theorem rejects_handlerEscape_cases {handlers : List Handler}
    (h : Rejects (handlerEscape env token handlers type bound body) s d s') :
    Rejects (solveAt env token) s d s' ∨
    d.code = .handlerEscape ∧ ∃ leaked, LetsOut env token type bound body s d s' leaked := by
  dsimp only [handlerEscape] at h
  rcases rejects_escape h with hsolve | ⟨s₁, free, hsolve, hfree, hstop⟩
  · exact .inl hsolve
  · obtain ⟨_, -, hstop⟩ := reads_provenance.rejects_bind hstop
    obtain ⟨trace, htrace, hstop⟩ := (reads_handlerTrace _ _).rejects_bind hstop
    obtain ⟨rfl, rfl⟩ := rejects_reject hstop
    refine .inr ⟨rfl, free ∩ bound, hsolve, ⟨free, hfree, rfl⟩, fun hoff => ?_, fun hexplains => ?_,
      fun hexplains => ?_⟩
    · rw [handlerTrace, if_neg (by simp [hoff])] at htrace
      exact (yields_pure.1 htrace).1.symm
    · exact (yields_handlerTrace hexplains htrace).1
    · exact (yields_handlerTrace hexplains htrace).2

/-- The item of a capability takes one level more than the trace below it. -/
theorem LetsOut.depth_le_iff (h : LetsOut env token type bound body s d s' leaked) :
    d.trace.depth ≤ n + 1 ↔
    env.options.explains = false ∨
      ∀ r ∈ leaked, ∀ below, (provenanceIn env s').explain r body = .ok below →
        below.depth ≤ n := by
  cases hexplains : env.options.explains with
  | false => simp [h.unexplained hexplains]
  | true =>
    simp only [Bool.true_eq_false, false_or]
    constructor
    · intro hdepth r hr below hbelow
      obtain ⟨below', hbelow', hitem⟩ := h.explained hexplains r hr
      rw [hbelow] at hbelow'
      cases hbelow'
      rcases hitem with rfl | ⟨i, hi, rfl⟩
      · simp
      · have hlevel := Trace.depth_le_iff.1 hdepth i hi
        rw [TraceItem.depth_eq] at hlevel
        omega
    · intro hbelow
      rw [Trace.depth_le_iff]
      intro i hi
      obtain ⟨r, hr, hexplain⟩ := h.items hexplains i hi
      have hlevel := hbelow r hr i.children hexplain
      rw [TraceItem.depth_eq]
      omega

/-- Every trace is within the limit, so the trace of a diagnostic is at most one level over it. -/
theorem LetsOut.depth_le (h : LetsOut env token type bound body s d s' leaked) :
    d.trace.depth ≤ env.options.explain.maxDepth.toNat + 1 := by
  rw [h.depth_le_iff]
  right
  intro r _ below hbelow
  exact Provenance.depth_le_of_explain hbelow

/-- What leaving a node rejects with keeps to the limit, or the node is a handler that lets
capabilities out. -/
theorem rejects_leave_cases (hn : env.options.explain.maxDepth.toNat ≤ n) {scope : Scope}
    {regs : List RegionSet} {t : Tree} (h : Rejects (leave env scope regs t) s d s') :
    (d.code ≠ .handlerEscape ∧ d.trace.depth ≤ n) ∨
    d.code = .handlerEscape ∧
    ∃ info body handlers type leaked, t = .handle info body handlers type ∧
      LetsOut env info.token type (Tree.regionsOf (handlers.map Handler.capability)) body
        { s with annotations := t.markScope s.annotations } d s' leaked := by
  rcases rejects_settle_or_record h with hsettle | ⟨_, _, hrecord⟩
  · by_cases hkind : t.kind? = some .handle
    · cases t with
      | handle info body handlers type =>
        rcases rejects_handlerEscape_cases hsettle with hsolve | ⟨hcode, leaked, hout⟩
        · exact .inl (shallow_solveAt _ _ _ hsolve)
        · exact .inr ⟨hcode, info, body, handlers, type, leaked, rfl, hout⟩
      | _ => cases hkind
    · exact .inl (shallow_settle hn hkind _ _ _ hsettle)
  · exact .inl (shallow_record _ _ _ hrecord)

end Check

namespace Module

open Check

variable {symbols : SymbolTable} {options : Options} {table F : Table} {m : Module} {d : Diagnostic}

/-- A rejected unit whose explanations may have a level has a trace within the limit, unless a
capability leaves its handler. In that case the run stops in leaving a handler, the trace is nested
at most one level too deep, and it is within the limit iff no explanations are wanted or the trace
of every capability that leaves the handler, as it is found in the handled body, has a level to
spare. -/
theorem nesting_limited (h : check symbols options table m = (.error (.rejected d), F))
    (hdepth : 1 ≤ options.explain.maxDepth) :
    (d.code ≠ .handlerEscape → (d.trace.depth : Int) ≤ options.explain.maxDepth) ∧
    (d.code = .handlerEscape → ∃ p info body handlers type s free,
      Reaches (node (m.env symbols options)) {} m.tree (m.start table) p ∧
      ((leave (m.env symbols options) p.scope p.regs p.node).outcome p.state).1 =
        .error (.rejected d) ∧
      p.node = .handle info body handlers type ∧
      Yields (solveAt (m.env symbols options) info.token) p.marked () s ∧
      type.freeRegions s.store.table = .ok free ∧
      (d.trace.depth : Int) ≤ options.explain.maxDepth + 1 ∧
      ((d.trace.depth : Int) ≤ options.explain.maxDepth ↔ options.explains = false ∨
        ∀ r ∈ free, p.node.Confines symbols r → ∀ trace,
          (provenanceIn (m.env symbols options) s).explain r body = .ok trace →
            (trace.depth : Int) < options.explain.maxDepth)) := by
  obtain ⟨n, hlevels⟩ : ∃ n : Nat, options.explain.maxDepth = n + 1 :=
    ⟨(options.explain.maxDepth - 1).toNat, by omega⟩
  have hn : (m.env symbols options).options.explain.maxDepth.toNat ≤ n + 1 := by
    show options.explain.maxDepth.toNat ≤ n + 1
    omega
  obtain ⟨s, -, hnode | ⟨reg, s₁, -, hsolve⟩⟩ := check_eq_rejected h
  · obtain ⟨p, hp, hleave⟩ := (outline_node _).exists_failing hnode
    rcases rejects_leave_cases hn hleave with ⟨hcode, hkept⟩ |
      ⟨hcode, info, body, handlers, type, leaked, hhandle, hout⟩
    · exact ⟨fun _ => by omega, fun hescape => absurd hescape hcode⟩
    · refine ⟨fun hother => absurd hcode hother, fun _ => ?_⟩
      obtain ⟨free, hfree, rfl⟩ := hout.mentions
      refine ⟨p, info, body, handlers, type, s, free, hp, congrArg Prod.fst hleave, hhandle,
        hout.solved, hfree, ?_, ?_⟩
      · have hover := hout.depth_le
        omega
      · have hleaves : ∀ r, r ∈ free ∩ Tree.regionsOf (handlers.map Handler.capability) ↔
            r ∈ free ∧ p.node.Confines symbols r := by
          intro r
          rw [RegionSet.mem_inter, mem_handled, hhandle]
          rfl
        have hfits : (d.trace.depth : Int) ≤ options.explain.maxDepth ↔
            d.trace.depth ≤ n + 1 := by omega
        rw [hfits, hout.depth_le_iff]
        refine or_congr Iff.rfl ⟨fun hspare r hr hconf trace htrace => ?_,
          fun hspare r hr trace htrace => ?_⟩
        · have hlevel := hspare r ((hleaves r).2 ⟨hr, hconf⟩) trace htrace
          omega
        · obtain ⟨hr, hconf⟩ := (hleaves r).1 hr
          have hlevel := hspare r hr hconf trace htrace
          omega
  · obtain ⟨hcode, hkept⟩ := shallow_solveAt (n := n + 1) _ _ _ hsolve
    exact ⟨fun _ => by omega, fun hescape => absurd hescape hcode⟩

/-- A handler around a function value that calls the handled capability. -/
def handsOut : Module where
  info := ⟨6, {}⟩
  name := "unit"
  imports := []
  defs := [.function ⟨5, {}⟩ 1 [] [] (.con "Int" "") (.handle ⟨4, {}⟩
    (.lambda ⟨3, {}⟩ 3 [] [] (.con "Int" "") (some (.set (.singleton 2)))
      (.call ⟨2, {}⟩ (.ref ⟨1, {}⟩ 2) [] [] (.con "Int" "")))
    [⟨{}, 2, "Exc", []⟩] (.fn [] [] (.con "Int" "") (some (.set (.singleton 2)))))]

/-- The options that allow so many levels of explanation. -/
def allowing (levels : Int) : Options := { explain := { maxDepth := levels } }

/-- The code and the number of levels with which a unit is rejected. -/
def rejectedLevels : Except Failure CheckReport → Option (Code × Nat)
  | .error (.rejected d) => some (d.code, d.trace.depth)
  | _ => none

theorem exists_rejected {symbols : SymbolTable} {options : Options} {table : Table} {m : Module}
    {code : Code} {n : Nat} (h : rejectedLevels (check symbols options table m).1 =
      some (code, n)) :
    ∃ d F, check symbols options table m = (.error (.rejected d), F) ∧ d.code = code ∧
      d.trace.depth = n := by
  rcases hcheck : check symbols options table m with ⟨(d | f) | report, F⟩
  · rw [hcheck] at h
    obtain ⟨hcode, hdepth⟩ := Prod.mk.inj (Option.some.inj h)
    exact ⟨d, F, rfl, hcode, hdepth⟩
  · rw [hcheck] at h
    cases h
  · rw [hcheck] at h
    cases h

/-- With three levels there is one to spare for the item at the handler. -/
theorem nesting_limited_handsOut : (1 : Int) ≤ (allowing 3).explain.maxDepth ∧
    ∃ d F, check {} (allowing 3) ⟨[]⟩ handsOut = (.error (.rejected d), F) ∧
      d.code = .handlerEscape ∧
      d.trace.depth = 3 ∧
      ∃ (p : Arrival) (info : Anchor) (body : Tree) (handlers : List Handler) (type : Ty)
        (s : CheckState) (free : RegionSet), p.node = .handle info body handlers type ∧
        type.freeRegions s.store.table = .ok free ∧ ∀ r ∈ free, p.node.Confines {} r → ∀ trace,
          (provenanceIn (handsOut.env {} (allowing 3)) s).explain r body = .ok trace →
          (trace.depth : Int) < 3 := by
  have hlevels : (1 : Int) ≤ (allowing 3).explain.maxDepth := by decide
  obtain ⟨d, F, hcheck, hcode, hdepth⟩ := exists_rejected
    (show rejectedLevels (check {} (allowing 3) ⟨[]⟩ handsOut).1 =
      some (.handlerEscape, 3) by decide +kernel)
  obtain ⟨p, info, body, handlers, type, s, free, -, -, hhandle, -, hfree, -, hiff⟩ :=
    (nesting_limited hcheck hlevels).2 hcode
  have hwithin : (d.trace.depth : Int) ≤ (allowing 3).explain.maxDepth := by
    rw [hdepth]
    decide
  have hspare := (hiff.1 hwithin).resolve_left (by decide)
  exact ⟨hlevels, d, F, hcheck, hcode, hdepth, p, info, body, handlers, type, s, free, hhandle,
    hfree, hspare⟩

/-- With two levels, which the trace of the capability takes up by itself, the reported trace has
three. -/
theorem nesting_exceeded : (1 : Int) ≤ (allowing 2).explain.maxDepth ∧
    ∃ d F, check {} (allowing 2) ⟨[]⟩ handsOut = (.error (.rejected d), F) ∧
      d.code = .handlerEscape ∧
      ¬ (d.trace.depth : Int) ≤ (allowing 2).explain.maxDepth := by
  obtain ⟨d, F, hcheck, hcode, hdepth⟩ := exists_rejected
    (show rejectedLevels (check {} (allowing 2) ⟨[]⟩ handsOut).1 =
      some (.handlerEscape, 3) by decide +kernel)
  refine ⟨by decide, d, F, hcheck, hcode, ?_⟩
  rw [hdepth]
  decide

end Module

end RegionCapture
