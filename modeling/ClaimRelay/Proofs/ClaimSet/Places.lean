import ClaimRelay.Binary.Token
import ClaimRelay.Proofs.Binary.Contents
import ClaimRelay.Proofs.ClaimSet.Cursor

/-!
# Cursors as stacks of places

A cursor keeps the indexes of the submodules it went down into and finds its claim set by them at every call. What it
answers is what a stack of claim sets answers, each with the number of its claims that were read. So the indexes always
lead somewhere, and leaving a submodule comes back to where it was entered.
-/

namespace ClaimRelay

variable {ς : Type}

/-! ## Calls on a reader as data -/

inductive Reader.Request
  | nextClaim
  | enter (index : Nat)
  | exit
  | nestedToken (index : Nat)
  | rewind

inductive Reader.Reply
  | claim (c : Option Claim)
  | slot (slot : Slot)
  | left
  | token (t : NestedToken)
  | rewound

namespace Reader

def answer (r : Reader ς) : Request → Step ς Reply
  | .nextClaim => do return .claim (← r.nextClaim)
  | .enter index => do return .slot (← r.enter index)
  | .exit => do r.exit; return .left
  | .nestedToken index => do return .token (← r.nestedToken index)
  | .rewind => do modify r.rewind; return .rewound

/-- The answers to all requests, each made in the state that the one before it left. -/
def session (r : Reader ς) : List Request → ς → List (Except Error Reply) × ς
  | [], s => ([], s)
  | request :: rest, s =>
    let (a, s) := r.answer request s
    let (as, s) := r.session rest s
    (a :: as, s)

theorem session_cons (r : Reader ς) (request : Request) (rest : List Request) (s : ς) :
    r.session (request :: rest) s = ((r.answer request s).1 :: (r.session rest (r.answer request s).2).1,
      (r.session rest (r.answer request s).2).2) := rfl

/-- A session is cut wherever its answers are. -/
theorem session_split {r : Reader ς} {requests : List Request} {s : ς} {as bs : List (Except Error Reply)}
    (h : (r.session requests s).1 = as ++ bs) : ∃ before after, (r.session before s).1 = as ∧
      r.session after (r.session before s).2 = (bs, (r.session requests s).2) := by
  induction as generalizing requests s with
  | nil => exact ⟨[], requests, rfl, Prod.ext h rfl⟩
  | cons a as ih =>
    cases requests with
    | nil => cases h
    | cons request rest =>
      rw [session_cons, List.cons_append] at h
      obtain ⟨rfl, hrest⟩ := List.cons.inj h
      obtain ⟨before, after, hbefore, hafter⟩ := ih hrest
      refine ⟨request :: before, after, ?_, hafter⟩
      rw [session_cons, hbefore]

theorem session_single {r : Reader ς} {requests : List Request} {x y : ς} {a : Except Error Reply}
    (h : r.session requests x = ([a], y)) :
    ∃ request, r.answer request x = (a, y) := by
  cases requests with
  | nil => cases h
  | cons request rest =>
    cases rest with
    | nil =>
      cases h
      exact ⟨request, rfl⟩
    | cons _ _ => cases h

/-- Whether an answer comes with a move: to the next claim, into a submodule, out of one, or back to the beginning. -/
def Moves : Except Error Reply → Prop
  | .ok (.claim (some _)) | .ok (.slot (.entered _)) | .ok .left | .ok .rewound => True
  | _ => False

/-- Whether an answer comes without leaving the level. -/
def AtLevel : Except Error Reply → Prop
  | .ok (.slot (.entered _)) | .ok .left | .ok .rewound => False
  | _ => True

/-- Answers in which each submodule that is entered is left again, and no other. -/
inductive Bracketed : List (Except Error Reply) → Prop
  | nil : Bracketed []
  | atLevel {a : Except Error Reply} {rest : List (Except Error Reply)} (ha : AtLevel a) (h : Bracketed rest) :
    Bracketed (a :: rest)
  | around {inner rest : List (Except Error Reply)} (name : String) (hi : Bracketed inner) (hr : Bracketed rest) :
    Bracketed (.ok (.slot (.entered name)) :: (inner ++ .ok .left :: rest))

end Reader

/-! ## Places -/

/-- A claim set, and how many of its claims were read. -/
structure Place where
  here : ClaimSet
  claimsRead : Nat := 0

/-- A place, with those above it, the innermost first. -/
structure Places where
  root : ClaimSet
  top : Place
  outer : List Place := []

namespace Places

def start (root : ClaimSet) : Places := { root, top := { here := root } }

def nextClaim : Step Places (Option Claim) := fun s =>
  match s.top.here.claims[s.top.claimsRead]? with
  | some c => (.ok (some c), { s with top := { s.top with claimsRead := s.top.claimsRead + 1 } })
  | none => (.ok none, s)

def enter (index : Nat) : Step Places Slot := fun s =>
  match s.top.here.entries[index]? with
  | some (.submodule name claims entries) =>
    (.ok (.entered name), { s with top := { here := ⟨claims, entries⟩ }, outer := s.top :: s.outer })
  | some (.token t) => (.ok (.nested t.name), s)
  | none => (.ok .noMore, s)

def exit : Step Places Unit := fun s =>
  match s.outer with
  | [] => (.error (.structural .exitAtTop), s)
  | above :: outer => (.ok (), { s with top := above, outer })

def nestedToken (index : Nat) : Step Places NestedToken := fun s =>
  match s.top.here.entries[index]? with
  | some (.token t) => (.ok t, s)
  | some (.submodule name _ _) => (.error (.structural (.notAToken index name)), s)
  | none => (.error (.structural (.noEntry index)), s)

def reader : Reader Places where
  nextClaim := nextClaim
  enter := enter
  exit := exit
  nestedToken := nestedToken
  rewind s := start s.root
  extent s := s.root.extent

end Places

namespace Cursor

/-! ## What a call does to a cursor -/

open Reader (Request Reply)

/-- All that a call can come to on a cursor that stands in `here`. -/
inductive Answered (here : ClaimSet) (s : Cursor) : Request → Except Error Reply → Cursor → Prop
  | claim {c : Claim} (h : here.claims[s.claimsRead]? = some c) :
    Answered here s .nextClaim (.ok (.claim (some c))) { s with claimsRead := s.claimsRead + 1 }
  | noClaim (h : here.claims[s.claimsRead]? = none) : Answered here s .nextClaim (.ok (.claim none)) s
  | entered {index : Nat} {name : String} {claims : List Claim} {entries : List Entry}
    (h : here.entries[index]? = some (.submodule name claims entries)) :
    Answered here s (.enter index) (.ok (.slot (.entered name)))
      { s with path := ⟨index, s.claimsRead⟩ :: s.path, claimsRead := 0 }
  | nested {index : Nat} {t : NestedToken} (h : here.entries[index]? = some (.token t)) :
    Answered here s (.enter index) (.ok (.slot (.nested t.name))) s
  | noMore {index : Nat} (h : here.entries[index]? = none) : Answered here s (.enter index) (.ok (.slot .noMore)) s
  | left {d : Descent} {above : List Descent} (h : s.path = d :: above) :
    Answered here s .exit (.ok .left) { s with path := above, claimsRead := d.claimsRead }
  | atTop (h : s.path = []) : Answered here s .exit (.error (.structural .exitAtTop)) s
  | token {index : Nat} {t : NestedToken} (h : here.entries[index]? = some (.token t)) :
    Answered here s (.nestedToken index) (.ok (.token t)) s
  | notAToken {index : Nat} {name : String} {claims : List Claim} {entries : List Entry}
    (h : here.entries[index]? = some (.submodule name claims entries)) :
    Answered here s (.nestedToken index) (.error (.structural (.notAToken index name))) s
  | noEntry {index : Nat} (h : here.entries[index]? = none) :
    Answered here s (.nestedToken index) (.error (.structural (.noEntry index))) s
  | rewound : Answered here s .rewind (.ok .rewound) s.rewind

variable {s : Cursor} {here : ClaimSet}

theorem answered (h : s.Stands here) (r : Request) :
    Answered here s r (reader.answer r s).1 (reader.answer r s).2 := by
  cases r with
  | nextClaim =>
    simp only [Reader.answer, reader, Step.bind_apply, nextClaim_eq h]
    cases hc : here.claims[s.claimsRead]? with
    | none => exact .noClaim hc
    | some c => exact .claim hc
  | enter index =>
    simp only [Reader.answer, reader, Step.bind_apply, enter_eq h]
    cases he : here.entries[index]? with
    | none => exact .noMore he
    | some entry => cases entry with
      | submodule name claims entries => exact .entered he
      | token t => exact .nested he
  | exit =>
    simp only [Reader.answer, reader, Step.bind_apply, exit_eq]
    cases hp : s.path with
    | nil => exact .atTop hp
    | cons d above => exact .left hp
  | nestedToken index =>
    simp only [Reader.answer, reader, Step.bind_apply, nestedToken_eq h]
    cases he : here.entries[index]? with
    | none => exact .noEntry he
    | some entry => cases entry with
      | submodule name claims entries => exact .notAToken he
      | token t => exact .token he
  | rewind => exact .rewound

theorem Answered.reachable {root : ClaimSet} {r : Request} {a : Except Error Reply} {s' : Cursor}
    (h : Answered here s r a s') (hs : s.Stands here) (hr : Reachable root s) : Reachable root s' := by
  cases h with
  | claim h =>
    have hnext := hr.nextClaim
    rwa [nextClaim_eq hs, h] at hnext
  | @entered index _ _ _ h =>
    have hinside := hr.enter index
    rwa [enter_eq hs, h] at hinside
  | left h =>
    have houtside := hr.exit
    rwa [exit_eq, h] at houtside
  | rewound => exact hr.rewind
  | _ => exact hr

theorem Answered.stays {r : Request} {a : Except Error Reply} {s' : Cursor} (h : Answered here s r a s')
    (ha : ¬Reader.Moves a) : s' = s := by
  cases h with
  | claim | entered | left | rewound => exact absurd trivial ha
  | _ => rfl

theorem Reachable.answered {root : ClaimSet} (hr : Reachable root s) (r : Request) : ∃ here, s.Stands here ∧
    Answered here s r (reader.answer r s).1 (reader.answer r s).2 ∧ Reachable root (reader.answer r s).2 := by
  obtain ⟨here, hs, -⟩ := hr.stands
  have hanswered := Cursor.answered hs r
  exact ⟨here, hs, hanswered, hanswered.reachable hs hr⟩

theorem Reachable.session {root : ClaimSet} (hr : Reachable root s) (requests : List Request) :
    Reachable root (reader.session requests s).2 := by
  induction requests generalizing s with
  | nil => exact hr
  | cons request rest ih =>
    obtain ⟨here, -, -, hnext⟩ := hr.answered request
    exact ih hnext

/-! ## The places of a cursor -/

/-- Whether a path leads through the places: each is the submodule at the index in the one above, where as many claims
were read as the path has kept. -/
inductive Leads (root : ClaimSet) : List Descent → Place → List Place → Prop
  | root (n : Nat) : Leads root [] ⟨root, n⟩ []
  | inside {above : List Descent} {around : Place} {outer : List Place} {index : Nat} {name : String}
    {claims : List Claim} {entries : List Entry} (n : Nat) (h : Leads root above around outer)
    (he : around.here.entries[index]? = some (.submodule name claims entries)) :
    Leads root (⟨index, around.claimsRead⟩ :: above) ⟨⟨claims, entries⟩, n⟩ (around :: outer)

structure Refines (c : Cursor) (s : Places) : Prop where
  root : c.root = s.root
  leads : Leads s.root c.path s.top s.outer
  claimsRead : c.claimsRead = s.top.claimsRead

theorem Leads.follow {root : ClaimSet} {path : List Descent} {top : Place} {outer : List Place}
    (h : Leads root path top outer) : follow root path = .ok top.here := by
  induction h with
  | root n => rfl
  | inside n _ he ih => exact stands_submodule (s := ⟨root, _, n⟩) _ n ih he

theorem Leads.at {root : ClaimSet} {path : List Descent} {top : Place} {outer : List Place}
    (h : Leads root path top outer) (n : Nat) : Leads root path ⟨top.here, n⟩ outer := by
  cases h with
  | root _ => exact .root n
  | inside _ h he => exact .inside n h he

theorem refines_start (root : ClaimSet) : Refines { root } (.start root) := ⟨rfl, .root 0, rfl⟩

variable {c : Cursor} {p : Places}

theorem Refines.stands (h : Refines c p) : c.Stands p.top.here := by
  unfold Stands
  rw [h.root]
  exact h.leads.follow

/-- One call, on a cursor and on its places. -/
theorem Answered.refines {r : Request} {a : Except Error Reply} {c' : Cursor} (h : Answered p.top.here c r a c')
    (hp : Refines c p) : ∃ p', Places.reader.answer r p = (a, p') ∧ Refines c' p' := by
  obtain ⟨root, top, outer⟩ := p
  obtain ⟨hroot, hleads, hread⟩ : c.root = root ∧ Leads root c.path top outer ∧ c.claimsRead = top.claimsRead :=
    ⟨hp.root, hp.leads, hp.claimsRead⟩
  cases h with
  | claim h =>
    rw [hread] at h
    refine ⟨⟨root, ⟨top.here, top.claimsRead + 1⟩, outer⟩, ?_, hroot, hleads.at _, congrArg (· + 1) hread⟩
    simp only [Reader.answer, Places.reader, Places.nextClaim, Step.bind_apply, h]
    rfl
  | noClaim h =>
    rw [hread] at h
    refine ⟨_, ?_, hp⟩
    simp only [Reader.answer, Places.reader, Places.nextClaim, Step.bind_apply, h]
    rfl
  | @entered _ _ claims entries h =>
    refine ⟨⟨root, ⟨⟨claims, entries⟩, 0⟩, top :: outer⟩, ?_, hroot, hread ▸ hleads.inside 0 h, rfl⟩
    simp only [Reader.answer, Places.reader, Places.enter, Step.bind_apply, h]
    rfl
  | left h =>
    rw [h] at hleads
    cases hleads with
    | inside n hleads he => exact ⟨_, rfl, hroot, hleads, rfl⟩
  | atTop h =>
    rw [h] at hleads
    cases hleads with
    | root n => exact ⟨_, rfl, hp⟩
  | rewound => exact ⟨.start root, rfl, hroot, .root 0, rfl⟩
  | nested h | noMore h =>
    refine ⟨_, ?_, hp⟩
    simp only [Reader.answer, Places.reader, Places.enter, Step.bind_apply, h]
    rfl
  | token h =>
    refine ⟨_, ?_, hp⟩
    simp only [Reader.answer, Places.reader, Places.nestedToken, Step.bind_apply, h]
    rfl
  | notAToken h | noEntry h =>
    refine ⟨_, ?_, hp⟩
    simp only [Reader.answer, Places.reader, Places.nestedToken, Step.bind_apply, h]

theorem Refines.session (h : Refines c p) (requests : List Request) :
    (reader.session requests c).1 = (Places.reader.session requests p).1 ∧
      Refines (reader.session requests c).2 (Places.reader.session requests p).2 := by
  induction requests generalizing c p with
  | nil => exact ⟨rfl, h⟩
  | cons request rest ih =>
    obtain ⟨p', hp', h'⟩ := (answered h.stands request).refines h
    obtain ⟨hsame, hrest⟩ := ih h'
    rw [Reader.session_cons, Reader.session_cons, hp', hsame]
    exact ⟨rfl, hrest⟩

theorem Leads.bounded {root : ClaimSet} {path : List Descent} {top : Place} {outer : List Place}
    (h : Leads root path top outer) (hs : Sound root path top.claimsRead) :
    ∀ place ∈ top :: outer, place.claimsRead ≤ place.here.claims.length := by
  induction h with
  | root n => exact List.forall_mem_cons.mpr ⟨hs, List.forall_mem_nil _⟩
  | inside n h he ih =>
    obtain ⟨haround, here, hfollow, hn⟩ := hs
    rw [(h.inside n he).follow] at hfollow
    cases hfollow
    exact List.forall_mem_cons.mpr ⟨hn, ih haround⟩

/-! ## Going into submodules and coming back -/

theorem Answered.path {r : Request} {a : Except Error Reply} {s' : Cursor} (h : Answered here s r a s')
    (ha : Reader.AtLevel a) : s'.path = s.path := by
  cases h with
  | entered | left | rewound => exact absurd ha id
  | _ => rfl

theorem Answered.inside {r : Request} {name : String} {s' : Cursor}
    (h : Answered here s r (.ok (.slot (.entered name))) s') : ∃ index, s'.path = ⟨index, s.claimsRead⟩ :: s.path := by
  cases h with
  | @entered index => exact ⟨index, rfl⟩

theorem Answered.outside {r : Request} {s' : Cursor} {d : Descent} {above : List Descent}
    (h : Answered here s r (.ok .left) s') (hp : s.path = d :: above) :
    s' = { s with path := above, claimsRead := d.claimsRead } := by
  cases h with
  | left h =>
    rw [hp] at h
    cases h
    rfl

/-- What is entered and left again is where it was, when the path is kept in between. -/
theorem restored {root : ClaimSet} {requests : List Request} {name : String} {inner : List (Except Error Reply)}
    (hr : Reachable root s)
    (h : (reader.session requests s).1 = .ok (.slot (.entered name)) :: (inner ++ [.ok .left]))
    (hi : ∀ {t : Cursor} {within : List Request}, Reachable root t → (reader.session within t).1 = inner →
      (reader.session within t).2.path = t.path) : (reader.session requests s).2 = s := by
  cases requests with
  | nil => cases h
  | cons request rest =>
    rw [Reader.session_cons] at h ⊢
    obtain ⟨hfirst, hrest⟩ := List.cons.inj h
    obtain ⟨here, -, hentered, hinside⟩ := hr.answered request
    rw [hfirst] at hentered
    obtain ⟨index, hpath⟩ := hentered.inside
    obtain ⟨within, last, hwithin, hlast⟩ := Reader.session_split hrest
    obtain ⟨exiting, hexit⟩ := Reader.session_single hlast
    have hkept := hi hinside hwithin
    rw [hpath] at hkept
    have hbottom := hinside.session within
    obtain ⟨here', -, hleft, -⟩ := hbottom.answered exiting
    rw [hexit] at hleft
    have hroot := hbottom.sound.1.trans hr.sound.1.symm
    rw [hleft.outside hkept, hroot]

theorem path_of_bracketed {answers : List (Except Error Reply)} (hb : Reader.Bracketed answers) {root : ClaimSet}
    {requests : List Request} (hr : Reachable root s) (h : (reader.session requests s).1 = answers) :
    (reader.session requests s).2.path = s.path := by
  induction hb generalizing requests s with
  | nil =>
    cases requests with
    | nil => rfl
    | cons request rest => cases h
  | @atLevel a rest ha _ ih =>
    cases requests with
    | nil => cases h
    | cons request more =>
      rw [Reader.session_cons] at h ⊢
      obtain ⟨rfl, hrest⟩ := List.cons.inj h
      obtain ⟨here, -, hanswered, hnext⟩ := hr.answered request
      rw [ih hnext hrest, hanswered.path ha]
  | @around inner rest name _ _ ihi ihr =>
    have hcut : Except.ok (.slot (.entered name)) :: (inner ++ .ok .left :: rest) =
        (.ok (.slot (.entered name)) :: (inner ++ [.ok .left])) ++ rest := by
      rw [List.append_cons, List.cons_append]
    rw [hcut] at h
    obtain ⟨before, after, hbefore, hafter⟩ := Reader.session_split h
    rw [restored hr hbefore ihi] at hafter
    have hrest := ihr hr (congrArg Prod.fst hafter)
    rwa [hafter] at hrest

/-! ## Sessions on cursors -/

/-- What a session on a cursor comes to, and what any call or calls after it do. -/
structure Navigates (root : ClaimSet) (requests : List Request) (c : Cursor) (p : Places) : Prop where
  same : (reader.session requests { root }).1 = (Places.reader.session requests (.start root)).1
  refines : Refines c p
  resolves : follow root c.path = .ok p.top.here
  found (index : Nat) : .error (.structural (.lostPath index)) ∉ (reader.session requests { root }).1
  bounded : ∀ place ∈ p.top :: p.outer, place.claimsRead ≤ place.here.claims.length
  stays {r : Request} {a : Except Error Reply} {c' : Cursor} (h : reader.answer r c = (a, c')) (ha : ¬Reader.Moves a) :
    c' = c
  enters {index : Nat} {name : String} {c' : Cursor}
    (h : reader.answer (.enter index) c = (.ok (.slot (.entered name)), c')) : ∃ claims entries,
    p.top.here.entries[index]? = some (.submodule name claims entries) ∧ c'.Stands ⟨claims, entries⟩ ∧ c'.claimsRead = 0
  comesBack {more : List Request} {name : String} {inner : List (Except Error Reply)}
    (h : (reader.session more c).1 = .ok (.slot (.entered name)) :: (inner ++ [.ok .left]))
    (hi : Reader.Bracketed inner) : (reader.session more c).2 = c

theorem Answered.found {r : Request} {index : Nat} {s' : Cursor} :
    ¬Answered here s r (.error (.structural (.lostPath index))) s' := nofun

theorem Reachable.found {root : ClaimSet} (hr : Reachable root s) (requests : List Request) (index : Nat) :
    .error (.structural (.lostPath index)) ∉ (reader.session requests s).1 := by
  induction requests generalizing s with
  | nil => exact List.not_mem_nil
  | cons request rest ih =>
    obtain ⟨here, -, hanswered, hnext⟩ := hr.answered request
    rw [Reader.session_cons, List.mem_cons, not_or]
    refine ⟨fun h => ?_, ih hnext⟩
    rw [← h] at hanswered
    exact hanswered.found

/-- **Navigation.** After any requests a cursor has said what the stack of places says, and stands where it does. -/
theorem session_navigates :
    (∀ root requests, Navigates root requests (reader.session requests { root }).2
      (Places.reader.session requests (.start root)).2) ∧
    ∀ bytes c, Binary.open? bytes = .ok c → ∃ root, c = { root } ∧ ∀ requests index,
      .error (.structural (.lostPath index)) ∉ (reader.session requests c).1 := by
  constructor
  · intro root requests
    have hstart : Reachable root { root } := .start
    have hreached := hstart.session requests
    obtain ⟨hsame, hrefines⟩ := (refines_start root).session requests
    obtain ⟨hroot, hsound⟩ := hreached.sound
    have hstands := hrefines.stands
    have hleads := hrefines.leads
    rw [← hrefines.root, hroot] at hleads
    rw [hrefines.claimsRead] at hsound
    constructor
    case same => exact hsame
    case refines => exact hrefines
    case resolves => exact hleads.follow
    case found => exact Reachable.start.found requests
    case bounded => exact hleads.bounded hsound
    case stays =>
      intro r a c' h ha
      have hanswered := answered hstands r
      rw [h] at hanswered
      exact hanswered.stays ha
    case enters =>
      intro index name c' h
      have hanswered := answered hstands (.enter index)
      rw [h] at hanswered
      cases hanswered with
      | @entered _ _ claims entries he => exact ⟨claims, entries, he, stands_submodule _ 0 hstands he, rfl⟩
    case comesBack =>
      intro more name inner h hi
      exact restored hreached h fun hr hw => path_of_bracketed hi hr hw
  · intro bytes c h
    obtain ⟨root, -, hc⟩ := Binary.bind_eq_ok.mp h
    cases hc
    exact ⟨root, rfl, Reachable.start.found⟩

def nested : ClaimSet where
  claims := [⟨1, .null⟩, ⟨2, .null⟩]
  entries := [.submodule "a" [⟨3, .null⟩] [.submodule "b" [] []]]

/-- The answers inside of the submodule `a`: a claim, the submodule `b` and back, nothing at 7, no token. -/
def insideAnswers : List (Except Error Reader.Reply) :=
  [.ok (.claim (some ⟨3, .null⟩)), .ok (.slot (.entered "b")), .ok (.claim none), .ok .left, .ok (.slot .noMore),
    .error (.structural (.notAToken 0 "b"))]

theorem session_navigates_nested : Reader.Bracketed insideAnswers ∧
    (reader.session [.enter 0, .nextClaim, .enter 0, .nextClaim, .exit, .enter 7, .nestedToken 0, .exit]
      { root := nested, claimsRead := 1 }).1 = .ok (.slot (.entered "a")) :: (insideAnswers ++ [.ok .left]) ∧
    (reader.session [.enter 0, .nextClaim, .enter 0, .nextClaim, .exit, .enter 7, .nestedToken 0, .exit]
      { root := nested, claimsRead := 1 }).2 = { root := nested, claimsRead := 1 } ∧
    (∃ c, Binary.open? [0x30, 0] = .ok c ∧ .error (.structural (.lostPath 0)) ∉ (reader.session [.enter 0] c).1) := by
  have hinside : Reader.Bracketed insideAnswers := by
    have hb : Reader.Bracketed [.ok (.claim none)] := .atLevel trivial .nil
    have hafter : Reader.Bracketed [.ok (.slot .noMore), .error (.structural (.notAToken 0 "b"))] :=
      .atLevel trivial (.atLevel trivial .nil)
    unfold insideAnswers
    apply Reader.Bracketed.atLevel
    · trivial
    · exact .around "b" hb hafter
  have hopen : Binary.open? [0x30, 0] = .ok { root := {} } := by with_unfolding_all rfl
  obtain ⟨hcursors, htokens⟩ := session_navigates
  have hread := hcursors nested [.nextClaim]
  obtain ⟨root, -, hfound⟩ := htokens _ _ hopen
  exact ⟨hinside, rfl, hread.comesBack rfl hinside, _, hopen, hfound [.enter 0] 0⟩

end Cursor

end ClaimRelay
