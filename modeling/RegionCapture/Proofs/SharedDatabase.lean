import RegionCapture.Files
import RegionCapture.Proofs.SignatureTable
import RegionCapture.Proofs.Slots

/-!
# Databases in files

A database in a file is there for all that open its path. Opening it again gives it unchanged
(`FileTree.Opens.again`), and what is stored under the path is opened next
(`FileTree.Opens.stored`).
-/

namespace RegionCapture

namespace Database

/-! ## Layouts -/

theorem adopt_current {d : Database} (h : d.schema = some currentSchema) : d.adopt = .ok d := by
  have hparse : Version.parse currentSchema = .ok ⟨1, 0, 0, "", ""⟩ := by decide +kernel
  simp only [adopt, h, hparse]
  rfl

/-- A database whose layout was accepted is accepted as it is from then on. -/
theorem adopt_of_adopted {d d' : Database} (h : d.adopt = .ok d') : d'.adopt = .ok d' := by
  have hadopt := h
  unfold adopt at h
  split at h
  · cases h
    exact adopt_current rfl
  · split at h
    · cases h
    · split at h
      · cases h
        exact hadopt
      · cases h

/-- Whether a layout is accepted depends on its version only. -/
theorem adopt_of_schema_eq {d d' : Database} (h : d.adopt = .ok d)
    (hschema : d'.schema = d.schema) : d'.adopt = .ok d' := by
  unfold adopt at h ⊢
  rw [hschema]
  split at h
  · rename_i hnone
    have hsome := congrArg schema (Except.ok.inj h)
    rw [hnone] at hsome
    cases hsome
  · split at h
    · cases h
    · split at h
      · rename_i hcompatible
        rw [if_pos hcompatible]
      · cases h

end Database

namespace FileTree

variable {t : FileTree} {path db p : RawText} {d d' : Database}

/-! ## Paths and the files under them -/

theorem content?_put (t : FileTree) (path : RawText) (c : Content) :
    (t.put path c).content? path = some c := by
  simp [content?, put]

theorem follow_put {stack stack' : List Path.Part} {part : Path.Part}
    (h : t.follow stack part = .ok stack') (path : RawText) (c : Content) :
    (t.put path c).follow stack part = .ok stack' := by
  have hdirs : (t.put path c).directories = t.directories := rfl
  simp only [follow, hdirs] at h ⊢
  by_cases hdir : t.directories.contains (Path.ofStack true stack) = true
  · rw [if_pos hdir] at h
    rw [if_pos hdir, h]
  · rw [if_neg hdir] at h
    split at h <;> cases h

theorem foldlM_follow_put {parts stack stack' : List Path.Part}
    (h : parts.foldlM t.follow stack = .ok stack') (path : RawText) (c : Content) :
    parts.foldlM (t.put path c).follow stack = .ok stack' := by
  induction parts generalizing stack with
  | nil => exact h
  | cons part parts ih =>
    rw [List.foldlM_cons] at h ⊢
    obtain ⟨next, hnext, hrest⟩ := bind_eq_ok.1 h
    exact bind_eq_ok.2 ⟨next, follow_put hnext path c, ih hrest⟩

/-- Files are found under the same paths when others are put beside them. -/
theorem resolve_put {q : RawText} (h : t.resolve path = .ok q) (p : RawText) (c : Content) :
    (t.put p c).resolve path = .ok q := by
  unfold resolve at h ⊢
  split_ifs at h ⊢
  obtain ⟨stack, hstack, hq⟩ := bind_eq_ok.1 h
  exact bind_eq_ok.2 ⟨stack, foldlM_follow_put hstack p c, hq⟩

/-! ## Opening -/

/-- The path is that of a database in a file, which can be changed. -/
def IsShared (db : RawText) : Prop :=
  db ≠ [] ∧ db ≠ memoryPath ∧
    ∃ a, Address.ofPath db = .ok a ∧ a.isInMemory = false ∧ a.isReadOnly = false

/-- Opening the path gives the database. -/
def Opens (t : FileTree) (db : RawText) (d : Database) : Prop := (t.openDatabase db).1 = .ok d

/-- The path has the address, and a database can be in the file that it leads to. -/
structure Leads (t : FileTree) (db : RawText) (a : Address) (p : RawText) : Prop where
  not_memory : db ≠ memoryPath
  address : Address.ofPath db = .ok a
  way : ∃ w, a.way? = .ok w
  not_isInMemory : a.isInMemory = false
  check : a.check = .ok ()
  resolve : t.resolve a.file = .ok p
  not_directory : t.directories.contains p = false

variable {a : Address}

theorem Leads.put (h : t.Leads db a p) (q : RawText) (c : Content) : (t.put q c).Leads db a p :=
  { h with resolve := resolve_put h.resolve q c }

/-- Opening gives what is stored once its layout is accepted, and leaves that in the file. -/
theorem Leads.openDatabase_eq (h : t.Leads db a p) (hstored : t.stored a.isReadOnly p = .ok d)
    (hadopt : d.adopt = .ok d') : t.openDatabase db = (.ok d', t.put p (.database d')) := by
  obtain ⟨w, hway⟩ := h.way
  simp only [openDatabase, if_neg h.not_memory, h.address, openAt, hway, h.resolve,
    h.not_isInMemory, hstored, h.check]
  simp [bind, Except.bind, hadopt]

theorem Leads.putDatabase_eq (h : t.Leads db a p) (d : Database) :
    t.putDatabase db d = t.put p (.database d) := by
  simp only [putDatabase, if_neg h.not_memory, h.address, h.resolve]

/-- A database in the file, with an accepted layout, is what the path opens. -/
theorem Leads.opens_put (h : t.Leads db a p) (hadopt : d.adopt = .ok d) :
    (t.put p (.database d)).Opens db d := by
  have hdirs : (t.put p (.database d)).directories = t.directories := rfl
  have hstored : (t.put p (.database d)).stored a.isReadOnly p = .ok d := by
    simp only [stored, hdirs, h.not_directory, content?_put]
    rfl
  rw [Opens, (h.put p (.database d)).openDatabase_eq hstored hadopt]

/-- What it takes to open a path: its file, the database stored there, and that its layout is
accepted. -/
theorem Opens.exists_leads (h : t.Opens db d) (hdb : IsShared db) : ∃ a p d₀,
    t.Leads db a p ∧ t.stored a.isReadOnly p = .ok d₀ ∧ d₀.adopt = .ok d := by
  obtain ⟨-, hmemory, a, haddress, hkept, -⟩ := hdb
  simp only [Opens, openDatabase, if_neg hmemory, haddress, openAt] at h
  rcases hway : a.way? with e | w
  · simp only [hway] at h
    cases h
  rcases hresolve : t.resolve a.file with e | p
  · simp only [hway, hresolve] at h
    cases h
  simp only [hway, hresolve, hkept] at h
  rcases hstored : t.stored a.isReadOnly p with e | d₀
  · simp [hstored, bind, Except.bind] at h
  rcases hcheck : a.check with e | ⟨⟩
  · simp [hstored, hcheck, bind, Except.bind] at h
  have hadopt : d₀.adopt = .ok d := by
    rcases hadopt : d₀.adopt with e | d₁
    · simp [hstored, hcheck, hadopt, bind, Except.bind] at h
    · simpa [hstored, hcheck, hadopt, bind, Except.bind] using h
  have hdirectory : t.directories.contains p = false := by
    by_contra hdir
    rw [Bool.not_eq_false] at hdir
    simp only [stored, hdir] at hstored
    cases hstored
  exact ⟨a, p, d₀, ⟨hmemory, haddress, ⟨w, hway⟩, hkept, hcheck, hresolve, hdirectory⟩,
    hstored, hadopt⟩

/-- Opening a database again gives the same. -/
theorem Opens.again (h : t.Opens db d) (hdb : IsShared db) : (t.openDatabase db).2.Opens db d := by
  obtain ⟨a, p, d₀, hleads, hstored, hadopt⟩ := h.exists_leads hdb
  rw [hleads.openDatabase_eq hstored hadopt]
  exact hleads.opens_put (Database.adopt_of_adopted hadopt)

/-- A database that is stored after opening its path is what the path opens next, if it has the same
layout. -/
theorem Opens.stored (h : t.Opens db d) (hdb : IsShared db) (hschema : d'.schema = d.schema) :
    ((t.openDatabase db).2.putDatabase db d').Opens db d' := by
  obtain ⟨a, p, d₀, hleads, hstored, hadopt⟩ := h.exists_leads hdb
  have hopened := hleads.put p (.database d)
  rw [hleads.openDatabase_eq hstored hadopt, hopened.putDatabase_eq d']
  exact hopened.opens_put (Database.adopt_of_schema_eq (Database.adopt_of_adopted hadopt) hschema)

end FileTree

end RegionCapture
