import ClaimRelay.CommandLine.Directory
import ClaimRelay.Proofs.Binary.Contents

/-!
# Files that are saved

What a directory is after a file has been written: the file reads back as what was written, and no other has changed.
Reading changes no file, and a write that is refused changes nothing at all.
-/

namespace ClaimRelay.CommandLine

namespace Directory

variable {d d' : Directory} {path : String} {bytes : List UInt8}

def lookup (d : Directory) (area : Area) (name : String) : Option (List UInt8) :=
  (d.filesIn area).lookup name

/-- The directory `d` with one file set, and nothing else touched. -/
structure Saves (d : Directory) (path : String) (bytes : List UInt8) (d' : Directory) : Prop where
  readBack : d'.read path = .ok bytes
  others : ∃ area name, d.target path = .ok (.entry area name false) ∧
    ∀ area' name', (area', name') ≠ (area, name) → d'.lookup area' name' = d.lookup area' name'
  input : d'.input = d.input
  output : d'.output = d.output
  errors : d'.errors = d.errors

/-- A path that leads somewhere leads there whatever the files are. -/
theorem descend_ok {area area' : Area} {names : List String} (h : d.descend area names = .ok area') :
    d'.descend area names = .ok area' := by
  induction names generalizing area with
  | nil => exact h
  | cons name rest ih =>
    rw [descend] at h ⊢
    by_cases hdot : name = "."
    · rw [if_pos hdot] at h ⊢
      exact ih h
    · rw [if_neg hdot] at h ⊢
      by_cases hup : name = ".."
      · rw [if_pos hup] at h ⊢
        exact ih h
      · rw [if_neg hup] at h
        obtain ⟨_, _, hthrow⟩ := Binary.bind_eq_ok.mp h
        cases hthrow

theorem target_ok {t : Target} (h : d.target path = .ok t) : d'.target path = .ok t := by
  unfold target at h ⊢
  by_cases hempty : path = ""
  · rw [if_pos hempty] at h
    cases h
  · rw [if_neg hempty] at h ⊢
    by_cases hlong : pathLimit < path.utf8ByteSize
    · rw [if_pos hlong] at h
      cases h
    · rw [if_neg hlong] at h ⊢
      cases hlast : ((path.splitOn "/").filter (· ≠ "")).getLast? with
      | none =>
        simp only [hlast] at h ⊢
        exact h
      | some last =>
        simp only [hlast] at h ⊢
        obtain ⟨area, harea, ht⟩ := Binary.bind_eq_ok.mp h
        exact Binary.bind_eq_ok.mpr ⟨area, descend_ok harea, ht⟩

theorem lookup_put_self {area : Area} {name : String} : (d.put area name bytes).lookup area name = some bytes := by
  cases area <;> simp [lookup, put, filesIn]

theorem lookup_cons_ne {files : List (String × List UInt8)} {name name' : String} (h : name' ≠ name) :
    ((name, bytes) :: files).lookup name' = files.lookup name' := by
  simp [List.lookup_cons, beq_false_of_ne h]

theorem lookup_filter_ne {files : List (String × List UInt8)} {name name' : String} (h : name' ≠ name) :
    (files.filter (·.1 ≠ name)).lookup name' = files.lookup name' := by
  induction files with
  | nil => rfl
  | cons file rest ih =>
    obtain ⟨found, bytes⟩ := file
    by_cases hfound : found = name
    · rw [List.filter_cons_of_neg (by simp [hfound]), ih, lookup_cons_ne (hfound ▸ h)]
    · rw [List.filter_cons_of_pos (by simp [hfound]), List.lookup_cons, List.lookup_cons, ih]

theorem lookup_put_of_ne {area area' : Area} {name name' : String} (h : (area', name') ≠ (area, name)) :
    (d.put area name bytes).lookup area' name' = d.lookup area' name' := by
  by_cases harea : area' = area
  · subst harea
    have hname : name' ≠ name := fun hn => h (hn ▸ rfl)
    have hput : (d.put area' name bytes).filesIn area' = (name, bytes) :: (d.filesIn area').filter (·.1 ≠ name) := by
      cases area' <;> rfl
    rw [lookup, hput, lookup_cons_ne hname, lookup_filter_ne hname]
    rfl
  · cases area <;> cases area' <;> first | rfl | exact absurd rfl harea

theorem write_eq_ok : d.write path bytes = .ok d' ↔ ∃ area name,
    d.target path = .ok (.entry area name false) ∧ ¬nameLimit < name.utf8ByteSize ∧ d' = d.put area name bytes := by
  unfold write
  constructor
  · intro h
    obtain ⟨t, ht, h⟩ := Binary.bind_eq_ok.mp h
    cases t with
    | directory => cases h
    | entry area name asDirectory =>
      cases asDirectory with
      | true => cases h
      | false =>
        obtain ⟨there, hthere, h⟩ := Binary.bind_eq_ok.mp h
        cases h
        refine ⟨area, name, ht, fun hlong => ?_, rfl⟩
        rw [file?, if_pos hlong] at hthere
        cases hthere
  · rintro ⟨area, name, ht, hn, rfl⟩
    have hfile : d.file? area name = .ok ((d.filesIn area).lookup name) := if_neg hn
    rw [ht, Binary.ok_bind]
    show (d.file? area name >>= _) = _
    rw [hfile]
    rfl

theorem read_entry {area : Area} {name : String} (ht : d.target path = .ok (.entry area name false))
    (hn : ¬nameLimit < name.utf8ByteSize) (hf : d.lookup area name = some bytes) : d.read path = .ok bytes := by
  have hfile : d.file? area name = .ok (some bytes) := by
    rw [file?, if_neg hn]
    exact congrArg _ hf
  unfold read
  rw [ht, Binary.ok_bind]
  show (d.file? area name >>= _) = _
  rw [hfile]
  rfl

theorem saves_of_write (h : d.write path bytes = .ok d') : d.Saves path bytes d' := by
  obtain ⟨area, name, ht, hn, rfl⟩ := write_eq_ok.mp h
  refine ⟨read_entry (target_ok ht) hn lookup_put_self, ⟨area, name, ht, fun _ _ => lookup_put_of_ne⟩, ?_, ?_, ?_⟩
  all_goals cases area <;> rfl

/-- What else is told does not matter to the files. -/
theorem saves_telling (h : d.write path bytes = .ok d') (errors : List String) :
    Saves { d with errors } path bytes { d' with errors } := by
  obtain ⟨area, name, ht, hn, rfl⟩ := write_eq_ok.mp h
  exact saves_of_write (write_eq_ok.mpr ⟨area, name, target_ok ht, hn, by cases area <;> rfl⟩)

theorem write_file_ok (h : d.write path bytes = .ok d') : host.write (.file path) bytes d = (.ok (), d') := by
  simp only [host, modifyGet, MonadStateOf.modifyGet, StateT.modifyGet, h]
  rfl

theorem write_file_error {refusal : String} (h : d.write path bytes = .error refusal) :
    host.write (.file path) bytes d = (.error refusal, d) := by
  simp only [host, modifyGet, MonadStateOf.modifyGet, StateT.modifyGet, h]
  rfl

/-- Reading uses up the standard input, and that is all it does. -/
theorem read_frame (place : Place) (d : Directory) : ∃ input, (host.read place d).2 = { d with input } := by
  cases place with
  | standard => exact ⟨[], rfl⟩
  | file path => exact ⟨d.input, rfl⟩

end Directory

end ClaimRelay.CommandLine
