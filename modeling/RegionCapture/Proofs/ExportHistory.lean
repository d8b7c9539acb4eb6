import Mathlib.Data.List.Induction
import RegionCapture.Proofs.SharedDatabase
import RegionCapture.Proofs.Stages

/-!
# Histories of exports

Units that go through the check and the export one after the other share a database. A unit that is
accepted and wanted overwrites the signatures of its own symbols
(`CompilationUnit.opens_send_of_passes`), and any other unit leaves the database as it is
(`CompilationUnit.opens_send_of_silent`). So after any history the database holds, for each module
and symbol, what the last such unit exported. Main statement `CompilationUnit.last_export_wins`.
-/

namespace RegionCapture

def World.nextRun (w : World) : RunId := .ofNat (w.runs + 1)

namespace CompilationUnit

open StageM

/-- The world after a unit went through the check and the export. -/
def send (u : CompilationUnit) (w : World) : World :=
  ((run [check, exportSignatures] u).outcome w).2

/-- The world after units went through the check and the export one after the other. -/
def sendAll (us : List CompilationUnit) (w : World) : World := us.foldl (fun w u => u.send w) w

/-- The unit comes without errors and its module is accepted with the report. -/
structure Passes (u : CompilationUnit) (m : Module) (report : CheckReport) : Prop where
  module : u.module = some m
  errors : u.errors = []
  check : (RegionCapture.check u.symbols (u.options.getD .default) (u.table.getD {}) m).1 =
    .ok report

/-- The signature is what is collected for the symbol of the module if the unit, which is accepted
and still wanted, goes through a run with the identity. -/
def Exports (u : CompilationUnit) (id : RunId) (module symbol : String) (sig : Signature) : Prop :=
  ∃ m report, u.Passes m report ∧ u.cancelled = false ∧ m.name = module ∧
    sig ∈ Signature.collect module u.symbols report.annotations id ∧ sig.symbol = symbol

/-- The signature is what the last of the units that exported the symbol of the module exported for
it. -/
def LastExport (w : World) (us : List CompilationUnit) (module symbol : String)
    (sig : Signature) : Prop :=
  ∃ earlier u later, us = earlier ++ u :: later ∧
    u.Exports (sendAll earlier w).nextRun module symbol sig ∧
    ∀ u' ∈ later, ∀ id sig', ¬ u'.Exports id module symbol sig'

/-- The unit comes with errors, is no longer wanted or is rejected. -/
def TurnedAway (u : CompilationUnit) : Prop :=
  u.errors ≠ [] ∨ u.cancelled = true ∨ ∃ m d, u.module = some m ∧
    (RegionCapture.check u.symbols (u.options.getD .default) (u.table.getD {}) m).1 =
    .error (.rejected d)

/-- The options of the unit name the database. -/
def ExportsTo (u : CompilationUnit) (db : RawText) : Prop :=
  ∃ o, u.options = some o ∧ o.exports.database = db

variable {u : CompilationUnit} {m : Module} {report : CheckReport} {w : World} {db : RawText}
  {d : Database}

/-! ## What one unit does -/

theorem outcome_openDatabase (db : RawText) (w : World) : (World.openDatabase db).outcome w =
    (.ok (w.files.openDatabase db).1, { w with files := (w.files.openDatabase db).2 }) := rfl

/-- What the export leaves of the files if the database opens. -/
theorem files_exportSignatures {a : Annotations} {o : Options} (ha : u.annotations = some a)
    (hm : u.module = some m) (ho : u.options = some o) (herrors : u.errors = [])
    (hdb : o.exports.database ≠ []) (hopen : w.files.Opens o.exports.database d) :
    ((exportSignatures u).outcome w).2.files =
      if u.cancelled then (w.files.openDatabase o.exports.database).2
      else (w.files.openDatabase o.exports.database).2.putDatabase o.exports.database
        (d.record (Signature.collect m.name u.symbols a u.runId)) := by
  simp only [exportSignatures, ha, hm, ho, herrors, hdb, List.isEmpty_nil, Bool.not_true,
    decide_false, Bool.or_false, Bool.false_eq_true, if_false]
  rw [outcome_bind, outcome_openDatabase, hopen]
  simp only [Database.save]
  cases u.cancelled <;> rfl

theorem exportSignatures_of_no_module (hm : u.module = none) :
    (exportSignatures u).outcome w = (.ok u, w) := by
  unfold exportSignatures
  rcases u.annotations with _ | a <;> simp only [hm] <;> rfl

theorem world_run_singleton (stage : Stage) (u : CompilationUnit) (w : World) :
    ((run [stage] u).outcome w).2 = ((stage u).outcome w).2 := by
  rcases hstage : (stage u).outcome w with ⟨f | v, w'⟩
  · rw [outcome_run_of_fault hstage]
  · by_cases herrors : v.errors = []
    · rw [outcome_run_of_passed hstage herrors]
      rfl
    · rw [outcome_run_of_failed hstage herrors]

theorem errors_of_render {v : CompilationUnit} {testing : Bool} {e : UnitError}
    (h : u.render testing e = .ok v) : v.errors = u.errors := by
  unfold render at h
  split at h
  · cases h
    rfl
  · cases h
  · split at h <;> cases h <;> rfl

/-- What an accepted unit leaves of the files if its database opens. -/
theorem files_send_of_passes (h : u.Passes m report) (hu : u.ExportsTo db) (hdb : db ≠ [])
    (hopen : w.files.Opens db d) :
    (u.send w).files =
      if u.cancelled then (w.files.openDatabase db).2
      else (w.files.openDatabase db).2.putDatabase db
        (d.record (Signature.collect m.name u.symbols report.annotations w.nextRun)) := by
  obtain ⟨o, ho, rfl⟩ := hu
  have hcheck := check_of_module (w := w) h.module h.errors
  rcases hresult : RegionCapture.check u.symbols (u.options.getD .default) (u.table.getD {}) m
    with ⟨outcome, table⟩
  obtain rfl : outcome = .ok report := by rw [← h.check, hresult]
  rw [hresult] at hcheck
  rw [send, outcome_run_of_passed hcheck h.errors, world_run_singleton]
  -- the export sees the same files, and what the check found out
  exact files_exportSignatures (u := u.accepted w.nextRun table report)
    (w := { w with runs := w.runs + 1 }) rfl h.module ho
    h.errors hdb hopen

/-- A unit that is not accepted leaves the files as they are. -/
theorem files_send_of_not_passes (h : ∀ m report, ¬ u.Passes m report) (w : World) :
    (u.send w).files = w.files := by
  by_cases herrors : u.errors = []
  · rcases hm : u.module with _ | m
    · rw [send, outcome_run_of_passed (check_idle (.inl hm)) herrors, world_run_singleton,
        exportSignatures_of_no_module hm]
    · have hcheck := check_of_module (w := w) hm herrors
      rcases hresult : RegionCapture.check u.symbols (u.options.getD .default) (u.table.getD {}) m
        with ⟨(diagnostic | f) | report, table⟩
      · -- whether the rejection can be rendered or not, the unit goes no further
        simp only [hresult, concluded] at hcheck
        rcases hrender : (u.rejected table diagnostic).render w.testing (.rejected diagnostic)
          with f | v
        · rw [hrender] at hcheck
          rw [send, outcome_run_of_fault hcheck]
        · rw [hrender] at hcheck
          have hfailed : v.errors ≠ [] := by
            rw [errors_of_render hrender]
            exact List.append_ne_nil_of_right_ne_nil _ (List.cons_ne_nil _ _)
          rw [send, outcome_run_of_failed hcheck hfailed]
      · rw [hresult] at hcheck
        rw [send, outcome_run_of_fault hcheck]
      · exact absurd ⟨hm, herrors, congrArg Prod.fst hresult⟩ (h m report)
  · rw [send, outcome_run_of_failed (check_idle (.inr herrors)) herrors]

/-- An accepted unit that is still wanted records what is collected for it. -/
theorem opens_send_of_passes (h : u.Passes m report) (hwanted : u.cancelled = false)
    (hu : u.ExportsTo db) (hdb : FileTree.IsShared db) (hopen : w.files.Opens db d) :
    (u.send w).files.Opens db
      (d.record (Signature.collect m.name u.symbols report.annotations w.nextRun)) := by
  rw [files_send_of_passes h hu hdb.1 hopen, hwanted]
  exact hopen.stored hdb (Database.schema_record d _)

/-- Every other unit leaves the database as it is. -/
theorem opens_send_of_silent (h : ∀ m report, u.Passes m report → u.cancelled = true)
    (hu : u.ExportsTo db) (hdb : FileTree.IsShared db) (hopen : w.files.Opens db d) :
    (u.send w).files.Opens db d := by
  by_cases hpasses : ∃ m report, u.Passes m report
  · obtain ⟨m, report, hpasses⟩ := hpasses
    rw [files_send_of_passes hpasses hu hdb.1 hopen, h m report hpasses]
    exact hopen.again hdb
  · rw [files_send_of_not_passes fun m report hp => hpasses ⟨m, report, hp⟩]
    exact hopen

theorem TurnedAway.silent (h : u.TurnedAway) (hpasses : u.Passes m report) :
    u.cancelled = true := by
  rcases h with herrors | hcancelled | ⟨m', diagnostic, hm, hcheck⟩
  · exact absurd hpasses.errors herrors
  · exact hcancelled
  · cases hm.symm.trans hpasses.module
    rw [hpasses.check] at hcheck
    cases hcheck

/-! ## What a unit exports -/

theorem Passes.unique {m' : Module} {report' : CheckReport} (h : u.Passes m report)
    (h' : u.Passes m' report') :
    m' = m ∧ report' = report := by
  cases h.module.symm.trans h'.module
  exact ⟨rfl, Except.ok.inj (h'.check.symm.trans h.check)⟩

variable {id : RunId} {module symbol : String} {sig : Signature}

theorem Passes.exports_iff (h : u.Passes m report) (hwanted : u.cancelled = false) :
    u.Exports id module symbol sig ↔
      sig ∈ Signature.collect m.name u.symbols report.annotations id ∧ sig.module = module ∧
      sig.symbol = symbol := by
  constructor
  · rintro ⟨m', report', h', -, rfl, hsig, hsymbol⟩
    obtain ⟨rfl, rfl⟩ := h.unique h'
    exact ⟨hsig, (Signature.of_mem_collect hsig).1, hsymbol⟩
  · rintro ⟨hsig, rfl, hsymbol⟩
    have hmodule := (Signature.of_mem_collect hsig).1
    exact ⟨m, report, h, hwanted, hmodule.symm, hmodule ▸ hsig, hsymbol⟩

/-- Which symbols a unit exports does not depend on the run. -/
theorem Exports.exists_of_run (h : u.Exports id module symbol sig) (id' : RunId) :
    ∃ sig', u.Exports id' module symbol sig' := by
  obtain ⟨m, report, hpasses, hwanted, hmodule, hsig, rfl⟩ := h
  obtain ⟨e, he, rfl⟩ := List.mem_map.1 hsig
  exact ⟨Signature.ofSymbol module u.symbols id' e.1 e.2, m, report, hpasses, hwanted, hmodule,
    List.mem_map.2 ⟨e, he, rfl⟩, rfl⟩

/-! ## Histories -/

theorem sendAll_append_singleton (us : List CompilationUnit) (u : CompilationUnit) (w : World) :
    sendAll (us ++ [u]) w = u.send (sendAll us w) := by
  simp only [sendAll, List.foldl_append, List.foldl_cons, List.foldl_nil]

theorem not_lastExport_nil : ¬ LastExport w [] module symbol sig := by
  rintro ⟨earlier, u, later, hus, -⟩
  simp at hus

/-- The last export is that of the last unit if it exports the symbol, and else that of the units
before it. -/
theorem lastExport_append_singleton_iff {us : List CompilationUnit} :
    LastExport w (us ++ [u]) module symbol sig ↔
    u.Exports (sendAll us w).nextRun module symbol sig ∨
      (LastExport w us module symbol sig ∧ ∀ id sig', ¬ u.Exports id module symbol sig') := by
  constructor
  · rintro ⟨earlier, v, later, hus, hexports, hlater⟩
    rcases List.eq_nil_or_concat later with rfl | ⟨later, v', rfl⟩
    · obtain ⟨rfl, heq⟩ := List.append_inj' hus rfl
      cases heq
      exact .inl hexports
    · rw [List.concat_eq_append, ← List.cons_append, ← List.append_assoc] at hus
      obtain ⟨rfl, heq⟩ := List.append_inj' hus rfl
      cases heq
      refine .inr ⟨⟨earlier, v, later, rfl, hexports, fun u' hu' => hlater u' ?_⟩, hlater u ?_⟩
      · simp [hu']
      · simp
  · rintro (hexports | ⟨⟨earlier, v, later, rfl, hexports, hlater⟩, hlast⟩)
    · exact ⟨us, u, [], rfl, hexports, fun u' hu' => absurd hu' List.not_mem_nil⟩
    · refine ⟨earlier, v, later ++ [u], by simp, hexports, fun u' hu' => ?_⟩
      rcases List.mem_append.1 hu' with hu' | hu'
      · exact hlater u' hu'
      · rw [List.mem_singleton.1 hu']
        exact hlast

theorem exists_lastExport_iff {us : List CompilationUnit} (w : World) :
    (∃ sig, LastExport w us module symbol sig) ↔
    ∃ u ∈ us, ∃ id sig, u.Exports id module symbol sig := by
  constructor
  · rintro ⟨sig, earlier, u, later, rfl, hexports, -⟩
    exact ⟨u, by simp, _, sig, hexports⟩
  · induction us using List.reverseRecOn with
    | nil => simp
    | append_singleton us u ih =>
      rintro ⟨v, hv, id, sig, hexports⟩
      by_cases hlast : ∃ id sig, u.Exports id module symbol sig
      · obtain ⟨id', sig', hlast⟩ := hlast
        obtain ⟨sig'', hlast⟩ := hlast.exists_of_run (sendAll us w).nextRun
        exact ⟨sig'', lastExport_append_singleton_iff.2 (.inl hlast)⟩
      · have hnone : ∀ id sig, ¬ u.Exports id module symbol sig :=
          fun id sig h => hlast ⟨id, sig, h⟩
        rcases List.mem_append.1 hv with hv | hv
        · obtain ⟨sig', hsig'⟩ := ih ⟨v, hv, id, sig, hexports⟩
          exact ⟨sig', lastExport_append_singleton_iff.2 (.inr ⟨hsig', hnone⟩)⟩
        · rw [List.mem_singleton.1 hv] at hexports
          exact absurd hexports (hnone id sig)

section
variable {us : List CompilationUnit} (hdb : FileTree.IsShared db)
include hdb

/-- If the database holds the last exports of some units, it holds those with one more unit after
that unit was sent. -/
theorem exists_records_append_singleton (hopen : (sendAll us w).files.Opens db d)
    (hrecords : d.Records (LastExport w us)) (hu : u.ExportsTo db) :
    ∃ d', (sendAll (us ++ [u]) w).files.Opens db d' ∧ d'.Records (LastExport w (us ++ [u])) := by
  rw [sendAll_append_singleton]
  by_cases hexporting : ∃ m report, u.Passes m report ∧ u.cancelled = false
  · obtain ⟨m, report, hpasses, hwanted⟩ := hexporting
    refine ⟨_, opens_send_of_passes hpasses hwanted hu hdb hopen, ?_⟩
    refine (hrecords.record (Signature.pairwise_collect _ _ _ _) fun sig hsig =>
      (Signature.of_mem_collect hsig).2).of_iff fun module symbol sig => ?_
    rw [lastExport_append_singleton_iff, hpasses.exports_iff hwanted]
    -- the rows that are kept are those of symbols that the unit exports in no run
    refine or_congr Iff.rfl (and_congr Iff.rfl ⟨fun h id sig' hexports => ?_,
      fun h sig' hsig' hkey => ?_⟩)
    · obtain ⟨sig'', hexports⟩ := hexports.exists_of_run (sendAll us w).nextRun
      obtain ⟨hmem, hkey⟩ := (hpasses.exports_iff hwanted).1 hexports
      exact h sig'' hmem hkey
    · exact h _ sig' ((hpasses.exports_iff hwanted).2 ⟨hsig', hkey⟩)
  · have hsilent : ∀ m report, u.Passes m report → u.cancelled = true := by
      intro m report hpasses
      by_contra hwanted
      exact hexporting ⟨m, report, hpasses, Bool.eq_false_of_not_eq_true hwanted⟩
    have hnone : ∀ module symbol id sig, ¬ u.Exports id module symbol sig := by
      rintro module symbol id sig ⟨m, report, hpasses, hwanted, -⟩
      exact hexporting ⟨m, report, hpasses, hwanted⟩
    refine ⟨d, opens_send_of_silent hsilent hu hdb hopen,
      hrecords.of_iff fun module symbol sig => ?_⟩
    rw [lastExport_append_singleton_iff]
    exact ⟨fun h => .inr ⟨h, hnone module symbol⟩, fun h => (h.resolve_left (hnone _ _ _ _)).1⟩

/-- After any history the database holds the last exports. -/
theorem exists_records {d₀ : Database} (hus : ∀ u ∈ us, u.ExportsTo db)
    (hopen : w.files.Opens db d₀) (hfresh : ∀ module symbol, d₀.row? module symbol = none) :
    ∃ d, (sendAll us w).files.Opens db d ∧ d.Records (LastExport w us) := by
  induction us using List.reverseRecOn with
  | nil =>
    refine ⟨d₀, hopen, ⟨fun module symbol row => ?_, ?_, ?_⟩⟩
    · simp [hfresh, not_lastExport_nil]
    · exact fun _ _ _ h => absurd h not_lastExport_nil
    · exact fun _ _ _ h => absurd h not_lastExport_nil
  | append_singleton us u ih =>
    obtain ⟨d, hopens, hrecords⟩ := ih fun v hv => hus v (List.mem_append_left _ hv)
    exact exists_records_append_singleton hdb hopens hrecords (hus u (by simp))

end

/-- After units went through the check and the export with the same database, which had no rows
before: looking a symbol of a module up gives what the last accepted and wanted unit of that name
exported for it, and is not found exactly if no unit exported it; listing a module gives just these
signatures, one for each symbol and in the order of their bytes; and a unit that comes with errors,
is no longer wanted or is rejected changes nothing in the database. -/
theorem last_export_wins {us : List CompilationUnit} {d₀ : Database} (hdb : FileTree.IsShared db)
    (hus : ∀ u ∈ us, u.ExportsTo db) (hopen : w.files.Opens db d₀)
    (hfresh : ∀ module symbol, d₀.row? module symbol = none) :
    ∃ d, (sendAll us w).files.Opens db d ∧
      (∀ module symbol sig, d.lookup false module symbol = .ok sig ↔
        LastExport w us module symbol sig) ∧
      (∀ module symbol, d.lookup false module symbol = .error .notFound ↔
        ∀ u ∈ us, ∀ id sig, ¬ u.Exports id module symbol sig) ∧
      (∀ module, ∃ sigs, d.list false module = .ok sigs ∧
        sigs.Pairwise (fun x y => x.symbol.toUTF8.toList < y.symbol.toUTF8.toList) ∧
        ∀ sig, sig ∈ sigs ↔ LastExport w us module sig.symbol sig) ∧
      ∀ u, u.ExportsTo db → u.TurnedAway → (sendAll (us ++ [u]) w).files.Opens db d := by
  obtain ⟨d, hopens, hrecords⟩ := exists_records hdb hus hopen hfresh
  refine ⟨d, hopens, fun module symbol sig => hrecords.lookup_eq_ok_iff, fun module symbol => ?_,
    hrecords.exists_list,
    fun u hu haway => ?_⟩
  · rw [hrecords.lookup_eq_notFound_iff, ← not_exists, exists_lastExport_iff]
    simp only [not_exists, not_and]
  · rw [sendAll_append_singleton]
    exact opens_send_of_silent (fun _ _ => haway.silent) hu hdb hopens

/-- A unit that exports a value with a slot for a region, followed by further definitions. -/
def exporting (r : Region) (further : List Tree) : CompilationUnit where
  symbols := ⟨[{ name := "f", kind := .value, exported := true },
    { name := "a", kind := .capability }, { name := "b", kind := .capability }, { name := "h" },
    { name := "<lambda>", kind := .lambda }]⟩
  module := some
    { info := ⟨7, {}⟩
      name := "unit"
      defs := .binding ⟨2, {}⟩ 1 (.fn [] [] (.con "Int" "") (some (.set (.singleton r))))
        (.literal ⟨1, {}⟩ "0") :: further
      imports := [] }
  options := some { Options.default with exports.database := "/signatures" }

/-- A function that returns a closure over its own capability. -/
def returningClosure : Tree :=
  .function ⟨6, {}⟩ 4 [] [2] (.fn [] [] (.con "Int" "") (some (.set (.singleton 2))))
    (.lambda ⟨5, {}⟩ 5 [] [] (.con "Int" "") (some (.set (.singleton 2)))
      (.call ⟨4, {}⟩ (.ref ⟨3, {}⟩ 2) [] [] (.con "Int" "")))

/-- Two units that are accepted, and then one that is no longer wanted, one with an error and one
that is rejected. -/
def overlapping : List CompilationUnit :=
  [exporting 2 [], exporting 3 [], { exporting 2 [] with request := some { cancelled := true } },
    { exporting 2 [] with errors := [.other "stage failed"] }, exporting 2 [returningClosure]]

/-- The second unit is the last one that exported the value. -/
theorem last_export_wins_overlapping :
    let db : RawText := "/signatures"
    let sig : Signature := { module := "unit", symbol := "f", kind := "value",
                             regions := some ["b"], runId := .ofNat 2 }
    FileTree.IsShared db ∧ (∀ u ∈ overlapping, u.ExportsTo db) ∧
      ({} : World).files.Opens db { schema := some Database.currentSchema } ∧
      LastExport {} overlapping "unit" "f" sig ∧
      ∀ u ∈ overlapping, ∀ id sig', ¬ u.Exports id "unit" "g" sig' := by
  intro db sig
  have hdb : FileTree.IsShared db := ⟨by decide, by decide, _, rfl, by decide, by decide⟩
  have hus : ∀ u ∈ overlapping, u.ExportsTo db := by
    intro u hu
    simp only [overlapping, List.mem_cons, List.not_mem_nil, or_false] at hu
    rcases hu with rfl | rfl | rfl | rfl | rfl <;> exact ⟨_, rfl, rfl⟩
  have hopen : ({} : World).files.Opens db { schema := some Database.currentSchema } := rfl
  have hfresh : ∀ module symbol,
      Database.row? { schema := some Database.currentSchema } module symbol = none := by
    simp [Database.row?]
  obtain ⟨d, hopens, hlookup, hnotFound, -, -⟩ := last_export_wins hdb hus hopen hfresh
  have hf : ((sendAll overlapping {}).files.openDatabase db).1.toOption.map
      (fun d => d.lookup false "unit" "f") =
      some (.ok sig) := by decide +kernel
  have hg : ((sendAll overlapping {}).files.openDatabase db).1.toOption.map
      (fun d => d.lookup false "unit" "g") =
      some (.error .notFound) := by decide +kernel
  rw [hopens] at hf hg
  exact ⟨hdb, hus, hopen, (hlookup "unit" "f" sig).1 (Option.some.inj hf),
    (hnotFound "unit" "g").1 (Option.some.inj hg)⟩

end CompilationUnit

end RegionCapture
