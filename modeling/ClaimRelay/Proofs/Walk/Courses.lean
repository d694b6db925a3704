import ClaimRelay.Proofs.Walk.Trace
import ClaimRelay.Proofs.Walk.Words

/-!
# Courses

The course of a claim set is made of all the calls of a walk and of its visits to the entries, in order. A submodule
that is nested one deeper than the limit offends, and so does a nested token where the writer takes none; a course is
cut at the first offender, of which nothing is asked but its name.
-/

namespace ClaimRelay

/-- What a reader answers where the entry is. -/
def Entry.slot : Entry → Slot
  | .submodule name _ _ => .entered name
  | .token t => .nested t.name

@[simp] theorem Protocol.sectionStart_true : sectionStart true = [] := rfl

@[simp] theorem Protocol.sectionStart_false : sectionStart false = [.startSection (.ok ())] := rfl

@[simp] theorem Protocol.sectionEnd_true : sectionEnd true = [.endSection (.ok ())] := rfl

@[simp] theorem Protocol.sectionEnd_false : sectionEnd false = [] := rfl

/-! ## Visits -/

/-- An entry, with the nesting that a submodule has in its place; the outermost ones have nesting 1. -/
structure Visit where
  nesting : Nat
  entry : Entry

namespace Visit

def offends (limit : Nat) (sink : Bool) : Visit → Bool
  | ⟨nesting, .submodule ..⟩ => nesting == limit + 1
  | ⟨_, .token _⟩ => !sink

/-- What a walk answers when the entry is the one that it ends at. -/
def refusal (limit : Nat) : Visit → Error
  | ⟨_, .submodule ..⟩ => .tooDeep limit
  | ⟨_, .token _⟩ => .unsupported .nestedToken

/-- A writer that takes no nested token is only asked. -/
def asked : Visit → List Call
  | ⟨_, .submodule ..⟩ => []
  | ⟨_, .token _⟩ => [.takesTokens false]

/-- Whether the writer takes the entry with the call. -/
inductive TakenBy : Visit → Call → Prop
  | submodule {nesting : Nat} {name : String} {claims : List Claim} {entries : List Entry} (handle : Nat) :
    TakenBy ⟨nesting, .submodule name claims entries⟩ (.openSubmodule name (.ok handle))
  | token {nesting : Nat} {t : NestedToken} : TakenBy ⟨nesting, .token t⟩ (.takesTokens true)

end Visit

mutual

/-- An entry and all that it holds, each submodule before its entries. -/
def Entry.visits (nesting : Nat) : Entry → List Visit
  | .submodule name claims entries =>
    ⟨nesting, .submodule name claims entries⟩ :: Entry.visitsAll (nesting + 1) entries
  | .token t => [⟨nesting, .token t⟩]

def Entry.visitsAll (nesting : Nat) : List Entry → List Visit
  | [] => []
  | first :: rest => Entry.visits nesting first ++ Entry.visitsAll nesting rest

end

def ClaimSet.visits (m : ClaimSet) : List Visit := Entry.visitsAll 1 m.entries

def Visit.answer (limit : Nat) : Option Visit → Except Error Unit
  | none => .ok ()
  | some v => .error (v.refusal limit)

/-! ## Courses -/

inductive Moment
  | call (call : Call)
  /-- The reader comes to the entry at an index, whose level has its section then. -/
  | visit (index : Nat) (sectionOpen : Bool) (v : Visit)

def Moment.calls : Moment → List Call
  | .call c => [c]
  | .visit index sectionOpen v => .enter index (.ok v.entry.slot) :: Protocol.sectionStart sectionOpen

def Moment.visit? : Moment → Option Visit
  | .call _ => none
  | .visit _ _ v => some v

/-- Whether the call is made on the reader. -/
def Call.reads : Call → Bool
  | nextClaim _ | enter .. | exit _ | nestedToken .. | rewind => true
  | _ => false

/-- The calls on the writer. -/
def written (log : List Call) : List Call := log.filter fun call => !call.reads

namespace Course

def calls (course : List Moment) : List Call := course.flatMap Moment.calls

def visits (course : List Moment) : List Visit := course.filterMap Moment.visit?

def claims (cs : List Claim) : List Moment :=
  cs.flatMap (fun c => [.call (.nextClaim (.ok (some c))), .call (.claim c (.ok ()))])
    ++ [.call (.nextClaim (.ok none))]

mutual

/-- An entry in its level, with whatever handle opening it is answered with. -/
inductive OfEntry : Nat → Nat → Bool → Entry → List Moment → Prop
  | submodule {nesting index : Nat} {sectionOpen : Bool} {cs : List Claim} {es : List Entry} {inner : List Moment}
    (name : String) (handle : Nat) (h : OfEntries (nesting + 1) 0 false es inner) :
    OfEntry nesting index sectionOpen (.submodule name cs es)
      (.visit index sectionOpen ⟨nesting, .submodule name cs es⟩ :: .call (.openSubmodule name (.ok handle))
        :: (claims cs ++ (inner ++ [.call (.exit (.ok ())), .call (.closeSubmodule handle (.ok ()))])))
  | token {nesting index : Nat} {sectionOpen : Bool} (t : NestedToken) :
    OfEntry nesting index sectionOpen (.token t)
      [.visit index sectionOpen ⟨nesting, .token t⟩, .call (.takesTokens true),
        .call (.nestedToken index (.ok t)), .call (.token t (.ok ()))]

/-- The rest of the entries of a level, from an index on, up to the end of its section. -/
inductive OfEntries : Nat → Nat → Bool → List Entry → List Moment → Prop
  | nil {nesting index : Nat} {sectionOpen : Bool} :
    OfEntries nesting index sectionOpen []
      (.call (.enter index (.ok .noMore)) :: (Protocol.sectionEnd sectionOpen).map .call)
  | cons {nesting index : Nat} {sectionOpen : Bool} {first : Entry} {rest : List Entry} {course more : List Moment}
    (h : OfEntry nesting index sectionOpen first course) (hr : OfEntries nesting (index + 1) true rest more) :
    OfEntries nesting index sectionOpen (first :: rest) (course ++ more)

end

/-- All that a walk does with a claim set when nothing stops it. -/
inductive Of : ClaimSet → List Moment → Prop
  | whole {cs : List Claim} {es : List Entry} {course : List Moment} (h : OfEntries 1 0 true es course) :
    Of ⟨cs, es⟩ (claims cs ++ .call (.startSection (.ok ())) :: course)

/-- What is logged on a course, up to its first offender. -/
inductive Cut (limit : Nat) (sink : Bool) : List Moment → Option Visit → List Call → Prop
  | clear {course : List Moment} (h : ∀ v ∈ visits course, v.offends limit sink = false) :
    Cut limit sink course none (calls course)
  | offender {before after : List Moment} {index : Nat} {sectionOpen : Bool} {v : Visit} {call : Call}
    (hb : ∀ u ∈ visits before, u.offends limit sink = false) (ho : v.offends limit sink = true)
    (ht : v.TakenBy call) :
    Cut limit sink (before ++ .visit index sectionOpen v :: .call call :: after) (some v)
      (calls (before ++ [.visit index sectionOpen v]) ++ v.asked)

/-! ## What courses are made of -/

@[simp] theorem calls_nil : calls [] = [] := rfl

@[simp] theorem visits_nil : visits [] = [] := rfl

section
variable (course more : List Moment)

@[simp] theorem calls_append : calls (course ++ more) = calls course ++ calls more := List.flatMap_append

@[simp] theorem visits_append : visits (course ++ more) = visits course ++ visits more := List.filterMap_append ..

@[simp] theorem calls_call (call : Call) : calls (.call call :: course) = call :: calls course := by
  simp [calls, Moment.calls]

@[simp] theorem visits_call (call : Call) : visits (.call call :: course) = visits course := rfl

@[simp] theorem calls_visit (index : Nat) (sectionOpen : Bool) (v : Visit) :
    calls (.visit index sectionOpen v :: course) =
      .enter index (.ok v.entry.slot) :: (Protocol.sectionStart sectionOpen ++ calls course) := by
  simp [calls, Moment.calls]

@[simp] theorem visits_visit (index : Nat) (sectionOpen : Bool) (v : Visit) :
    visits (.visit index sectionOpen v :: course) = v :: visits course := rfl

end

theorem claims_cons (c : Claim) (cs : List Claim) :
    claims (c :: cs) = .call (.nextClaim (.ok (some c))) :: .call (.claim c (.ok ())) :: claims cs := rfl

@[simp] theorem visits_claims (cs : List Claim) : visits (claims cs) = [] := by
  induction cs with
  | nil => rfl
  | cons c cs ih => simpa [claims_cons] using ih

@[simp] theorem visits_map_call (more : List Call) : visits (more.map .call) = [] := by
  induction more with
  | nil => rfl
  | cons call more ih => exact ih

@[simp] theorem calls_map_call (more : List Call) : calls (more.map .call) = more := by
  induction more with
  | nil => rfl
  | cons call more ih => simpa using ih

mutual

theorem OfEntry.visits_eq : ∀ {e : Entry} {course : List Moment} {nesting index : Nat} {sectionOpen : Bool},
    OfEntry nesting index sectionOpen e course → visits course = e.visits nesting
  | .token t, _, _, _, _, .token _ => rfl
  | .submodule name cs es, _, _, _, _, .submodule _ handle h => by
    simp [Entry.visits, h.visits_eq]

theorem OfEntries.visits_eq : ∀ {es : List Entry} {course : List Moment} {nesting index : Nat} {sectionOpen : Bool},
    OfEntries nesting index sectionOpen es course → visits course = Entry.visitsAll nesting es
  | [], _, _, _, _, .nil => by simp [Entry.visitsAll]
  | first :: rest, _, _, _, _, .cons h hr => by
    rw [visits_append, h.visits_eq, hr.visits_eq, Entry.visitsAll]

end

mutual

theorem OfEntry.possible : ∀ (e : Entry) (nesting index : Nat) (sectionOpen : Bool),
    ∃ course, OfEntry nesting index sectionOpen e course
  | .token t, _, _, _ => ⟨_, .token t⟩
  | .submodule name cs es, nesting, _, _ => by
    obtain ⟨inner, h⟩ := OfEntries.possible es (nesting + 1) 0 false
    exact ⟨_, .submodule name 0 h⟩

theorem OfEntries.possible : ∀ (es : List Entry) (nesting index : Nat) (sectionOpen : Bool),
    ∃ course, OfEntries nesting index sectionOpen es course
  | [], _, _, _ => ⟨_, .nil⟩
  | first :: rest, nesting, index, sectionOpen => by
    obtain ⟨course, h⟩ := OfEntry.possible first nesting index sectionOpen
    obtain ⟨more, hr⟩ := OfEntries.possible rest nesting (index + 1) true
    exact ⟨_, .cons h hr⟩

end

theorem Of.visits_eq {m : ClaimSet} {course : List Moment} (h : Of m course) : visits course = m.visits := by
  cases h with | whole h => simp [ClaimSet.visits, h.visits_eq]

/-! ## What courses tell the writer -/

@[simp] theorem written_nil : written [] = [] := rfl

@[simp] theorem written_append (log more : List Call) : written (log ++ more) = written log ++ written more :=
  List.filter_append ..

theorem written_claims (cs : List Claim) : written (calls (claims cs)) = Trace.claims cs := by
  induction cs with
  | nil => simp [claims, written, Call.reads, Trace.claims]
  | cons c cs ih => simpa [claims_cons, written, Call.reads, Trace.claims] using ih

@[simp] theorem written_sectionStart (sectionOpen : Bool) :
    written (Protocol.sectionStart sectionOpen) = Protocol.sectionStart sectionOpen := by
  cases sectionOpen <;> rfl

@[simp] theorem written_sectionEnd (sectionOpen : Bool) :
    written (Protocol.sectionEnd sectionOpen) = Protocol.sectionEnd sectionOpen := by
  cases sectionOpen <;> rfl

theorem written_cons (call : Call) (log : List Call) :
    written (call :: log) = if call.reads then written log else call :: written log := by
  cases h : call.reads <;> simp [written, h]

theorem bracket_of_entries {es : List Entry} {puts : List Call} (h : Trace.OfEntries es puts) :
    Trace.OfBracket es (if es.isEmpty then [] else .startSection (.ok ()) :: (puts ++ [.endSection (.ok ())])) := by
  cases es with
  | nil => exact .empty
  | cons first rest => exact .bracket h

mutual

theorem OfEntry.trace : ∀ {e : Entry} {course : List Moment} {nesting index : Nat} {sectionOpen : Bool},
    OfEntry nesting index sectionOpen e course →
    ∃ puts, Trace.OfEntry e puts ∧ written (calls course) = Protocol.sectionStart sectionOpen ++ puts
  | .token t, _, _, _, _, .token _ => by
    refine ⟨_, .token t, ?_⟩
    simp [written_cons, Call.reads]
  | .submodule name cs es, _, _, _, _, .submodule _ handle h => by
    obtain ⟨puts, hputs, heq⟩ := h.trace
    refine ⟨_, .submodule name handle (bracket_of_entries hputs), ?_⟩
    simp [written_cons, Call.reads, written_claims, heq]

theorem OfEntries.trace : ∀ {es : List Entry} {course : List Moment} {nesting index : Nat} {sectionOpen : Bool},
    OfEntries nesting index sectionOpen es course →
    ∃ puts, Trace.OfEntries es puts ∧ written (calls course) = if es.isEmpty && !sectionOpen then [] else
      Protocol.sectionStart sectionOpen ++ (puts ++ [.endSection (.ok ())])
  | [], _, _, _, sectionOpen, .nil => by
    refine ⟨[], .nil, ?_⟩
    cases sectionOpen <;> simp [written_cons, Call.reads]
  | first :: rest, _, _, _, sectionOpen, .cons h hr => by
    obtain ⟨puts, hputs, heq⟩ := h.trace
    obtain ⟨more, hmore, heq'⟩ := hr.trace
    refine ⟨_, .cons hputs hmore, ?_⟩
    simp [heq, heq']

end

theorem Of.trace {m : ClaimSet} {course : List Moment} (h : Of m course) : Trace.Of m (written (calls course)) := by
  cases h with | @whole cs es course h =>
    obtain ⟨puts, hputs, heq⟩ := h.trace
    have hof : Trace.Of ⟨cs, es⟩ _ := .deliver hputs
    simpa [written_cons, Call.reads, written_claims, heq] using hof

/-! ## Cuts -/

section
variable {limit : Nat} {sink : Bool} {course front more : List Moment} {v : Visit} {seen : List Call}

theorem Cut.behind (hf : ∀ u ∈ visits front, u.offends limit sink = false) (h : Cut limit sink course (some v) seen) :
    Cut limit sink (front ++ course) (some v) (calls front ++ seen) := by
  cases h with | @offender before after index sectionOpen _ call hb ho ht =>
    have hclear : ∀ u ∈ visits (front ++ before), u.offends limit sink = false := by
      intro u hu
      rw [visits_append, List.mem_append] at hu
      exact hu.elim (hf u) (hb u)
    rw [← List.append_assoc front, ← List.append_assoc (calls front), ← calls_append, ← List.append_assoc front]
    exact .offender hclear ho ht

theorem Cut.before (h : Cut limit sink course (some v) seen) (more : List Moment) :
    Cut limit sink (course ++ more) (some v) seen := by
  cases h with | @offender before after index sectionOpen _ call hb ho ht =>
    rw [List.append_assoc]
    exact .offender hb ho ht

theorem Cut.find (h : Cut limit sink course (some v) seen) :
    (visits course).find? (Visit.offends limit sink) = some v := by
  cases h with | @offender before after index sectionOpen _ call hb ho ht =>
    have hnone : (visits before).find? (Visit.offends limit sink) = none := by simpa using hb
    simp [hnone, ho]

end

end Course

end ClaimRelay
