import RegionCapture.Proofs.Lockstep
import RegionCapture.Proofs.Origin

/-!
# Checking under different options

Options decide whether an escape is explained, how deep explanations nest, and whether scopes are
verified; they decide nothing else. Two checks of a unit over the same table run in lockstep through
every node, up to the moment of a rejection: there the one may explain and the other not, so their
diagnostics differ in their traces at most. A check that verifies scopes has one more reason to stop
(`Check.lockstep_record`), which is excused. Main statement `Module.options_irrelevant`.
-/

namespace RegionCapture

/-- The diagnostics agree in everything but their traces. -/
def Diagnostic.SameFinding (d d' : Diagnostic) : Prop := { d with trace := d'.trace } = d'

/-- The failures say the same, up to traces. Explaining may end in a fault, so a fault stands for
any failure. -/
inductive Failure.SameReport : Failure → Failure → Prop
  | rejected {d d' : Diagnostic} (same : d.SameFinding d') : SameReport (.rejected d) (.rejected d')
  | left (f : Fault) (e : Failure) : SameReport (.fault f) e
  | right (e : Failure) (f : Fault) : SameReport e (.fault f)

theorem Failure.SameReport.refl (e : Failure) : SameReport e e := by
  cases e with
  | rejected d => exact .rejected rfl
  | fault f => exact .left f _

/-- The failure is a report of a broken invariant. -/
def Failure.IsInternal (e : Failure) : Prop := ∃ d, e = .rejected d ∧ d.code = .internal

namespace Check

variable {α β : Type} {V : α → β → Prop} {E : Failure → Prop} {env : CheckEnv} {o : Options}
  {token : Token} {body : Tree}

/-- States correspond if they are equal, and failures if they say the same. -/
def comparing (E : Failure → Prop) : Pairing := ⟨Eq, Failure.SameReport, E⟩

theorem lockstep_same (x : Check α) : Lockstep (comparing E) Eq x x := by
  rintro s _ rfl
  rcases x.outcome s with ⟨e | a, s'⟩
  · exact Or.inr ⟨.refl e, rfl⟩
  · exact ⟨rfl, rfl⟩

/-- Two steps that prepare a rejection by reading need not read the same, as long as what they
reject is the same. -/
theorem lockstep_rejecting {γ δ : Type} {x : Check γ} {y : Check δ} {d : γ → Diagnostic}
    {d' : δ → Diagnostic} (hx : Reads x) (hy : Reads y) (h : ∀ a b, (d a).SameFinding (d' b)) :
    Lockstep (comparing E) V (x >>= fun a => reject (d a)) (y >>= fun b => reject (d' b)) := by
  rintro s _ rfl
  have hxs := hx s
  have hys := hy s
  rw [outcome_bind, outcome_bind]
  rcases hxout : x.outcome s with ⟨(e | f) | a, s₁⟩ <;>
    rcases hyout : y.outcome s with ⟨(e' | f') | b, s₂⟩ <;>
    rw [hxout] at hxs <;> rw [hyout] at hys <;> obtain ⟨rfl, hxr⟩ :=
      hxs <;> obtain ⟨rfl, hyr⟩ := hys
  · exact absurd rfl (hxr e)
  · exact absurd rfl (hxr e)
  · exact absurd rfl (hxr e)
  · exact absurd rfl (hyr e')
  · exact Or.inr ⟨.left f _, rfl⟩
  · exact Or.inr ⟨.left f _, rfl⟩
  · exact absurd rfl (hyr e')
  · exact Or.inr ⟨.right _ f', rfl⟩
  · exact Or.inr ⟨.rejected (h a b), rfl⟩

/-! ## The steps of the traversal -/

theorem regionName_congr {p q : Provenance} (h : p.symbols = q.symbols) :
    p.regionName = q.regionName := by
  funext r
  simp only [Provenance.regionName, h]

theorem unsolvable_congr {p q : Provenance} (h : p.symbols = q.symbols) (token : Token)
    (e : SolveError) :
    unsolvable p token e = unsolvable q token e := by
  cases e with
  | mismatch l r => simp only [unsolvable, Provenance.describe, regionName_congr h]
  | _ => rfl

theorem solveAt_options (env : CheckEnv) (o : Options) (token : Token) :
    solveAt { env with options := o } token = solveAt env token := by
  funext s
  have h : (solveAt { env with options := o } token).outcome s = (solveAt env token).outcome s := by
    rw [outcome_solveAt, outcome_solveAt]
    cases s.store.solve.1 with
    | ok => rfl
    | error e =>
      have hsame : ∀ depth : Int,
          unsolvable ⟨env.symbols, s.annotations, s.store.solve.2.table, depth⟩ token e =
          unsolvable ⟨env.symbols, s.annotations, s.store.solve.2.table,
            env.options.explain.maxDepth⟩ token e :=
        fun _ => unsolvable_congr rfl token e
      simp only [hsame]
  exact h

theorem instantiate_options (env : CheckEnv) (o : Options) (token : Token) :
    instantiate { env with options := o } token = instantiate env token := by
  funext sig regs type
  simp only [instantiate, solveAt_options]

/-- Reading is not affected by the options, apart from how deep explanations nest. -/
theorem lockstep_provenance :
    Lockstep (comparing E) (fun p p' => p.symbols = p'.symbols) (provenance env)
      (provenance { env with options := o }) := by
  rintro s _ rfl
  exact ⟨rfl, rfl⟩

theorem lockstep_escape {type : Ty} {forbidden : RegionSet} {stop stop' : RegionSet → Check Unit}
    (h : ∀ free, Lockstep (comparing E) Eq (stop free) (stop' free)) :
    Lockstep (comparing E) Eq
      (do
        solveAt env token
        let free ← orFault (type.freeRegions (← table))
        unless (free ∩ forbidden).isEmpty do stop free)
      (do
        solveAt { env with options := o } token
        let free ← orFault (type.freeRegions (← table))
        unless (free ∩ forbidden).isEmpty do stop' free) := by
  rw [solveAt_options]
  refine (lockstep_same _).bind fun _ _ _ => (lockstep_same table).bind ?_
  rintro t _ rfl
  refine (lockstep_same _).bind ?_
  rintro free _ rfl
  exact lockstep_ite Iff.rfl (lockstep_pure rfl) (h _)

theorem lockstep_definitionEscape (symbol : SymbolId) (result : Ty) (forbidden : RegionSet) :
    Lockstep (comparing E) Eq (definitionEscape env token symbol result forbidden body)
      (definitionEscape { env with options := o } token symbol result forbidden body) := by
  dsimp only [definitionEscape]
  refine lockstep_escape fun free => ?_
  exact lockstep_rejecting (reads_explainEach _ body) (reads_explainEach _ body) fun _ _ => rfl

theorem lockstep_handlerEscape (handlers : List Handler) (type : Ty) (bound : RegionSet) :
    Lockstep (comparing E) Eq (handlerEscape env token handlers type bound body)
      (handlerEscape { env with options := o } token handlers type bound body) := by
  dsimp only [handlerEscape]
  refine lockstep_escape fun free => lockstep_provenance.bind fun p p' hp => ?_
  -- the names of the capabilities are the same, since the symbols are
  simp only [regionName_congr hp]
  exact lockstep_rejecting (reads_handlerTrace handlers _) (reads_handlerTrace handlers _)
    fun _ _ => rfl

theorem lockstep_matchSlot (slot : Option Term) (reg : RegionSet) :
    Lockstep (comparing E) Eq (matchSlot env token slot reg body)
      (matchSlot { env with options := o } token slot reg body) := by
  cases slot with
  | none => exact lockstep_same _
  | some term =>
    simp only [matchSlot, solveAt_options]
    refine (lockstep_same table).bind ?_
    rintro t _ rfl
    refine (lockstep_same _).bind ?_
    rintro seen _ rfl
    cases seen with
    | set expected =>
      refine lockstep_ite Iff.rfl (lockstep_pure rfl) (lockstep_provenance.bind fun p p' hp => ?_)
      simp only [Provenance.describe, regionName_congr hp]
      exact lockstep_rejecting (reads_explainEach _ body) (reads_explainEach _ body) fun _ _ => rfl
    | var v => exact lockstep_same _

theorem lockstep_settle (regs : List RegionSet) (reg : RegionSet) (t : Tree) :
    Lockstep (comparing E) Eq (settle env regs reg t)
      (settle { env with options := o } regs reg t) := by
  cases t with
  | function info symbol params blocks result body =>
    exact (lockstep_definitionEscape symbol result _).bind fun _ _ _ => lockstep_same _
  | lambda info symbol params blocks result slot body =>
    exact (lockstep_matchSlot slot reg).bind fun _ _ _ =>
      (lockstep_definitionEscape symbol result _).bind fun _ _ _ => lockstep_same _
  | handle info body handlers type => exact lockstep_handlerEscape handlers type _
  | binding info symbol type init =>
    simp only [settle, solveAt_options]
    exact lockstep_same _
  | call info callee args blockArgs type =>
    have hcallee : calleeSignature { env with options := o } callee =
        calleeSignature env callee := by
      cases callee <;> rfl
    simp only [settle, hcallee, instantiate_options]
    exact lockstep_same _
  | _ => exact lockstep_same _

/-! ## Recording a node -/

/-- Verifying a scope changes nothing; if it fails it reports a broken invariant. -/
theorem verifyScope_spec (env : CheckEnv) (scope : Scope) (token : Token) (reg : RegionSet)
    (s : CheckState) :
    (verifyScope env scope token reg).outcome s = (.ok (), s) ∨
      ∃ d, (verifyScope env scope token reg).outcome s = (.error (.rejected d), s) ∧
        d.code = .internal := by
  unfold verifyScope
  by_cases h : reg.subsetOf scope.lexical = true
  · rw [if_pos h]
    exact .inl rfl
  · rw [if_neg h]
    exact .inr ⟨_, rfl, rfl⟩

/-- The first check verifies scopes only if the second one does, or if what it then reports is
excused. -/
theorem lockstep_record {scope : Scope} {info : Anchor} {reg : RegionSet}
    (h : env.options.verifyScopes = o.verifyScopes ∨ o.verifyScopes = false ∧
      ∀ e, e.IsInternal → E e) :
    Lockstep (comparing E) Eq (record env scope info reg)
      (record { env with options := o } scope info reg) := by
  rcases h with hsame | ⟨hoff, hexcused⟩
  · have hverify : verifyScope { env with options := o } scope info.token reg =
        verifyScope env scope info.token reg :=
      rfl
    simp only [record, hverify, hsame]
    exact lockstep_same _
  · unfold record
    rw [show ({ env with options := o } : CheckEnv).options.verifyScopes = false from hoff]
    cases env.options.verifyScopes with
    | false => exact lockstep_same _
    | true =>
      rintro s _ rfl
      simp only [if_true, Bool.false_eq_true, if_false]
      rw [outcome_bind]
      rcases verifyScope_spec env scope info.token reg s with hpass | ⟨d, hstop, hcode⟩
      · rw [hpass]
        exact lockstep_same _ s s rfl
      · rw [hstop]
        have hE : E (.rejected d) := hexcused _ ⟨d, rfl, hcode⟩
        exact hE

theorem lockstep_leave (h : env.options.verifyScopes = o.verifyScopes ∨ o.verifyScopes = false ∧
      ∀ e, e.IsInternal → E e)
    (scope : Scope) (regs : List RegionSet) (t : Tree) :
    Lockstep (comparing E) Eq (leave env scope regs t)
      (leave { env with options := o } scope regs t) := by
  refine (lockstep_same _).bind fun _ _ _ => (lockstep_same get).bind ?_
  rintro s _ rfl
  exact (lockstep_settle regs _ t).bind fun _ _ _ => lockstep_record h

/-! ## Checking a unit -/

/-- Both checks are of the same trees in the same scopes. -/
def unchanged : Transport := ⟨id, id, id⟩

theorem comparing_carries : (comparing E).Carries unchanged where
  hole := rfl
  present h := h
  nothing := rfl
  tasks t := by
    have htask : unchanged.task = id := by
      funext c
      simp [Transport.task, unchanged]
    rw [htask, List.map_id]
    rfl
  inner _ _ := rfl
  entered := by
    rintro scope t s _ rfl
    rfl
  resumed := by
    rintro scope r s _ rfl
    cases r <;> rfl

theorem lockstep_node (h : env.options.verifyScopes = o.verifyScopes ∨ o.verifyScopes = false ∧
      ∀ e, e.IsInternal → E e)
    (scope : Scope) (t : Tree) :
    Lockstep (comparing E) unchanged.Found (node env scope t)
      (node { env with options := o } scope t) := by
  refine lockstep_visit comparing_carries (outline_node env)
    (outline_node { env with options := o })
    (fun scope regs t => ?_) scope t
  rw [show regs.map unchanged.regions = regs from List.map_id regs]
  exact (lockstep_leave h scope regs t).mono fun _ _ => Eq.symm

theorem lockstep_whole (h : env.options.verifyScopes = o.verifyScopes ∨ o.verifyScopes = false ∧
      ∀ e, e.IsInternal → E e)
    (m : Module) : Lockstep (comparing E) Eq (whole env m) (whole { env with options := o } m) := by
  refine (lockstep_node h {} m.tree).bind fun _ _ _ => ?_
  rw [solveAt_options]
  exact lockstep_same _

end Check

namespace Module

open Check

/-- How the checks of one unit under two options compare. -/
theorem check_aligned {E : Failure → Prop} (symbols : SymbolTable) (o₁ o₂ : Options) (table : Table)
    (m : Module) (h : o₁.verifyScopes = o₂.verifyScopes ∨ o₂.verifyScopes = false ∧
      ∀ e, e.IsInternal → E e) :
    (∃ report F, check symbols o₁ table m = (.ok report, F) ∧
      check symbols o₂ table m = (.ok report, F)) ∨
    (∃ e e' F, check symbols o₁ table m = (.error e, F) ∧
      check symbols o₂ table m = (.error e', F) ∧
      e.SameReport e') ∨
    ∃ e F, check symbols o₁ table m = (.error e, F) ∧ E e := by
  have haligned : (comparing E).Aligned Eq ((whole (m.env symbols o₁) m).outcome (m.start table))
      ((whole (m.env symbols o₂) m).outcome (m.start table)) := lockstep_whole h m _ _ rfl
  rw [check_eq, check_eq]
  rcases h₁ : (whole (m.env symbols o₁) m).outcome (m.start table) with ⟨e | _, s₁⟩ <;>
    rcases h₂ : (whole (m.env symbols o₂) m).outcome (m.start table) with ⟨e' | _, s₂⟩ <;>
    rw [h₁, h₂] at haligned
  · rcases haligned with hE | ⟨hsame, hstate⟩
    · exact .inr (.inr ⟨e, s₁.store.table, rfl, hE⟩)
    · obtain rfl : s₁ = s₂ := hstate
      exact .inr (.inl ⟨e, e', s₁.store.table, rfl, rfl, hsame⟩)
  · exact .inr (.inr ⟨e, s₁.store.table, rfl, haligned⟩)
  · exact haligned.elim
  · obtain rfl : s₁ = s₂ := haligned.2
    exact .inl ⟨s₁.report, s₁.store.table, rfl, rfl⟩

/-- Options never change the analysis of a unit whose types can be read. Under options that agree on
the verification of scopes, both checks give the same report, or both reject the unit with
diagnostics that differ at most in their traces, and they leave the same table. A check that
verifies scopes and does not report a broken invariant tells what the check without verification
gives. -/
theorem options_irrelevant {m : Module} {table : Table} (h : m.WellTyped table)
    (symbols : SymbolTable) (o₁ o₂ : Options) :
    (o₁.verifyScopes = o₂.verifyScopes →
      (check symbols o₁ table m).2 = (check symbols o₂ table m).2 ∧
      ((∃ report, (check symbols o₁ table m).1 = .ok report ∧
        (check symbols o₂ table m).1 = .ok report) ∨
        ∃ d₁ d₂, (check symbols o₁ table m).1 = .error (.rejected d₁) ∧
          (check symbols o₂ table m).1 = .error (.rejected d₂) ∧ d₁.SameFinding d₂)) ∧
    (o₁.verifyScopes = true → o₂.verifyScopes = false →
      (∀ report F, check symbols o₁ table m = (.ok report, F) →
        check symbols o₂ table m = (.ok report, F)) ∧
      ∀ d₁ F, check symbols o₁ table m = (.error (.rejected d₁), F) → d₁.code ≠ .internal →
        ∃ d₂, check symbols o₂ table m = (.error (.rejected d₂), F) ∧ d₁.SameFinding d₂) := by
  have hfault : ∀ {o : Options} {f : Fault} {F : Table},
      check symbols o table m ≠ (.error (.fault f), F) := by
    intro o f F he
    exact h.check_ne_fault f (congrArg Prod.fst he)
  constructor
  · intro hsame
    have haligned := check_aligned (E := fun _ => False) symbols o₁ o₂ table m (.inl hsame)
    rcases haligned with ⟨report, F, h₁, h₂⟩ | ⟨e, e', F, h₁, h₂, hreport⟩ | ⟨_, _, _, hE⟩
    · rw [h₁, h₂]
      exact ⟨rfl, .inl ⟨report, rfl, rfl⟩⟩
    · cases hreport with
      | rejected hd =>
        rw [h₁, h₂]
        exact ⟨rfl, .inr ⟨_, _, rfl, rfl, hd⟩⟩
      | left => exact absurd h₁ hfault
      | right => exact absurd h₂ hfault
    · exact hE.elim
  · intro _ hoff
    have haligned := check_aligned (E := Failure.IsInternal) symbols o₁ o₂ table m
      (.inr ⟨hoff, fun _ he => he⟩)
    rcases haligned with ⟨report, F, h₁, h₂⟩ | ⟨e, e', F, h₁, h₂, hreport⟩ | ⟨e, F, h₁, hE⟩
    · rw [h₁, h₂]
      exact ⟨fun _ _ heq => heq, fun _ _ heq => by cases heq⟩
    · cases hreport with
      | rejected hd =>
        rw [h₁, h₂]
        refine ⟨fun _ _ heq => (by cases heq), fun d₁ F' heq _ => ?_⟩
        cases heq
        exact ⟨_, rfl, hd⟩
      | left => exact absurd h₁ hfault
      | right => exact absurd h₂ hfault
    · obtain ⟨d, rfl, hcode⟩ := hE
      rw [h₁]
      refine ⟨fun _ _ heq => (by cases heq), fun d₁ F' heq hne => ?_⟩
      cases heq
      exact absurd hcode hne

/-- A function with a capability that returns a closure over it. -/
def returning : Module where
  info := ⟨5, {}⟩
  name := "unit"
  defs :=
    [.function ⟨4, {}⟩ 1 [] [2] (.fn [] [] (.con "Int" "") (some (.set (.singleton 2))))
      (.lambda ⟨3, {}⟩ 3 [] [] (.con "Int" "") (some (.set (.singleton 2)))
        (.call ⟨2, {}⟩ (.ref ⟨1, {}⟩ 2) [] [] (.con "Int" "")))]
  imports := []

theorem wellTyped_returning : returning.WellTyped {} := by
  have hset : Table.Covers {} (.set (.singleton 2)) := Table.covers_set
  intro type htype
  have hmem : type ∈ [Ty.fn [] [] (.con "Int" "") (some (.set (.singleton 2))),
      .fn [] [] (.con "Int" "") (some (.set (.singleton 2))), .con "Int" ""] := htype
  simp only [List.mem_cons, List.not_mem_nil, or_false] at hmem
  rcases hmem with rfl | rfl | rfl <;>
    exact ⟨by simp [Ty.EverySlot, Ty.EverySlots, hset], by simp [Ty.Whole]⟩

/-- The size of the trace with which a unit is rejected. -/
def tracedSteps : Except Failure CheckReport → Option Nat
  | .error (.rejected d) => some d.trace.size
  | _ => none

/-- The escaping capability is reported with and without the two steps that explain it. -/
theorem options_irrelevant_returning :
    let symbols : SymbolTable :=
  ⟨[{ name := "h" }, { name := "g", kind := .capability }, { kind := .lambda }]⟩
    let bare : Options := { Options.default with explain := { enabled := some false } }
    returning.WellTyped {} ∧
      ∃ d₁ d₂, (check symbols .default {} returning).1 = .error (.rejected d₁) ∧
        (check symbols bare {} returning).1 = .error (.rejected d₂) ∧ d₁.SameFinding d₂ ∧
        d₁.trace.size = 2 ∧ d₂.trace.size = 0 := by
  intro symbols bare
  refine ⟨wellTyped_returning, ?_⟩
  have hone : tracedSteps (check symbols .default {} returning).1 = some 2 := by decide +kernel
  have htwo : tracedSteps (check symbols bare {} returning).1 = some 0 := by decide +kernel
  rcases ((options_irrelevant wellTyped_returning symbols .default bare).1 rfl).2 with
    ⟨report, hok, -⟩ | ⟨d₁, d₂, h₁, h₂, hsame⟩
  · rw [hok] at hone
    cases hone
  · rw [h₁] at hone
    rw [h₂] at htwo
    exact ⟨d₁, d₂, h₁, h₂, hsame, Option.some.inj hone, Option.some.inj htwo⟩

end Module

end RegionCapture
