import ClaimRelay.Calls
import ClaimRelay.Proofs.Walk.Lockstep

/-!
# The trace of a walk

A writer that takes everything is called once for each thing the cursor has ahead, in the order of the claim
set. `Walk.run_traced`: the calls are a trace of it, each submodule closed with what opening it answered; only a
claim set that nests deeper than the limit, counted from where the cursor stands, ends the walk early.
-/

namespace ClaimRelay

variable {τ : Type}

/-- Whether a writer takes everything. -/
structure Writer.Accepts (w : Writer τ) : Prop where
  claim (c : Claim) (t : τ) : ∃ t', w.claim c t = (.ok (), t')
  startSection (t : τ) : ∃ t', w.startSection t = (.ok (), t')
  endSection (t : τ) : ∃ t', w.endSection t = (.ok (), t')
  openSubmodule (name : String) (t : τ) : ∃ handle t', w.openSubmodule name t = (.ok handle, t')
  closeSubmodule (handle : Nat) (t : τ) : ∃ t', w.closeSubmodule handle t = (.ok (), t')
  takesTokens (t : τ) : ∃ t', w.takesTokens t = (true, t')
  token (n : NestedToken) (t : τ) : ∃ t', w.token n t = (.ok (), t')

namespace Trace

def claims (cs : List Claim) : List Call := cs.map fun c => .claim c (.ok ())

mutual

/-- The calls that put an entry, with whatever handle opening it is answered with. -/
inductive OfEntry : Entry → List Call → Prop
  | submodule {cs : List Claim} {es : List Entry} {calls : List Call} (name : String) (handle : Nat)
    (h : OfBracket es calls) :
    OfEntry (.submodule name cs es) (.openSubmodule name (.ok handle)
      :: (claims cs ++ (calls ++ [.closeSubmodule handle (.ok ())])))
  | token (t : NestedToken) : OfEntry (.token t) [.takesTokens true, .token t (.ok ())]

/-- The calls that put the section of a submodule, if there is an entry. -/
inductive OfBracket : List Entry → List Call → Prop
  | empty : OfBracket [] []
  | bracket {first : Entry} {rest : List Entry} {calls : List Call} (h : OfEntries (first :: rest) calls) :
    OfBracket (first :: rest) (.startSection (.ok ()) :: (calls ++ [.endSection (.ok ())]))

inductive OfEntries : List Entry → List Call → Prop
  | nil : OfEntries [] []
  | cons {first : Entry} {rest : List Entry} {calls more : List Call} (h : OfEntry first calls)
    (hr : OfEntries rest more) : OfEntries (first :: rest) (calls ++ more)

end

inductive Of : ClaimSet → List Call → Prop
  | deliver {cs : List Claim} {es : List Entry} {calls : List Call} (h : OfEntries es calls) :
    Of ⟨cs, es⟩ (claims cs ++ .startSection (.ok ()) :: (calls ++ [.endSection (.ok ())]))

/-! ## What delivery logs -/

/-- Whether a step always adds calls of `W` to the log and succeeds when `p`, and is refused for the depth
otherwise. -/
def Tells (limit : Nat) (p : Prop) (W : List Call → Prop) (x : Step (τ × List Call) Unit) : Prop :=
  ∀ t log, ∃ t' calls, (p → x (t, log) = (.ok (), (t', log ++ calls)) ∧ W calls) ∧
    (¬p → x (t, log) = (.error (.tooDeep limit), (t', log ++ calls)))

section
variable {limit : Nat} {p q : Prop} {V W : List Call → Prop} {x y : Step (τ × List Call) Unit}

theorem Tells.nothing (hW : W []) : Tells limit True W (pure () : Step (τ × List Call) Unit) := by
  intro t log
  refine ⟨t, [], fun _ => ⟨?_, hW⟩, fun h => absurd trivial h⟩
  rw [List.append_nil]
  rfl

theorem Tells.refuse (hp : ¬p) (k : Unit → Step (τ × List Call) Unit) :
    Tells limit p W (throw (.tooDeep limit) >>= k) := by
  intro t log
  refine ⟨t, [], fun h => absurd h hp, fun _ => ?_⟩
  rw [List.append_nil]
  rfl

theorem Tells.call {call : Step τ Unit} {log : Except Error Unit → Call} (h : ∀ t, ∃ t', call t = (.ok (), t')) :
    Tells limit True (· = [log (.ok ())]) (call.logged log) := by
  intro t before
  obtain ⟨t', ht⟩ := h t
  refine ⟨t', _, fun _ => ⟨?_, rfl⟩, fun h => absurd trivial h⟩
  simp only [Step.logged, ht]

theorem Tells.mono (hx : Tells limit p W x) (hp : q ↔ p) (h : ∀ calls, W calls → V calls) : Tells limit q V x := by
  intro t log
  obtain ⟨t', calls, hok, herr⟩ := hx t log
  refine ⟨t', calls, fun hq => ?_, fun hq => herr (mt hp.mpr hq)⟩
  obtain ⟨hrun, hW⟩ := hok (hp.mp hq)
  exact ⟨hrun, h _ hW⟩

theorem Tells.bind (hx : Tells limit p W x) (hy : Tells limit q V y) :
    Tells limit (p ∧ q) (fun calls => ∃ before after, calls = before ++ after ∧ W before ∧ V after)
      (do x; y) := by
  intro t log
  obtain ⟨t₁, before, hok, herr⟩ := hx t log
  by_cases hp : p
  · obtain ⟨hx', hW⟩ := hok hp
    obtain ⟨t₂, after, hok', herr'⟩ := hy t₁ (log ++ before)
    refine ⟨t₂, before ++ after, fun h => ⟨?_, before, after, rfl, hW, (hok' h.2).2⟩, fun h => ?_⟩
    · rw [Step.bind_of_ok hx', (hok' h.2).1, List.append_assoc]
    · rw [Step.bind_of_ok hx', herr' fun hq => h ⟨hp, hq⟩, List.append_assoc]
  · exact ⟨t₁, before, fun h => absurd h.1 hp, fun _ => Step.bind_of_error (herr hp)⟩

end

section
variable {limit : Nat} {w : Writer τ} (hw : w.Accepts)
include hw

theorem tells_claims (cs : List Claim) : Tells limit True (· = claims cs) (w.logged.claims cs) := by
  induction cs with
  | nil => exact .nothing rfl
  | cons c cs ih =>
    rw [Writer.claims]
    refine .mono (.bind (.call (hw.claim c)) ih) (and_true _).symm.to_iff ?_
    rintro _ ⟨_, _, rfl, rfl, rfl⟩
    rfl

theorem tells_offer (t : NestedToken) : Tells limit True (OfEntry (.token t)) (w.logged.offer t) := by
  intro s log
  obtain ⟨s₁, h₁⟩ := hw.takesTokens s
  obtain ⟨s₂, h₂⟩ := hw.token t s₁
  have hasked : (modifyGet w.logged.takesTokens : Step (τ × List Call) Bool) (s, log) =
      (.ok true, (s₁, log ++ [.takesTokens true])) := by
    simp only [modifyGet, MonadStateOf.modifyGet, Writer.logged, h₁]
  refine ⟨s₂, _, fun _ => ⟨?_, .token t⟩, fun h => absurd trivial h⟩
  rw [Writer.offer, Step.bind_of_ok hasked]
  simp [Writer.logged, Step.logged, h₂]

theorem tells_opened {name : String} {p : Prop} {V : Nat → List Call → Prop} {f : Nat → Step (τ × List Call) Unit}
    (hf : ∀ handle, Tells limit p (V handle) (f handle)) :
    Tells limit p (fun calls => ∃ handle rest, calls = .openSubmodule name (.ok handle) :: rest ∧ V handle rest)
      (w.logged.openSubmodule name >>= f) := by
  intro t log
  obtain ⟨handle, t₁, h₁⟩ := hw.openSubmodule name t
  obtain ⟨t₂, calls, hok, herr⟩ := hf handle t₁ (log ++ [.openSubmodule name (.ok handle)])
  have hopened : w.logged.openSubmodule name (t, log) =
      (.ok handle, (t₁, log ++ [.openSubmodule name (.ok handle)])) := by
    simp only [Writer.logged, Step.logged, h₁]
  rw [List.append_assoc] at hok herr
  refine ⟨t₂, .openSubmodule name (.ok handle) :: calls, fun hp => ?_, fun hp => ?_⟩
  · obtain ⟨hrun, hV⟩ := hok hp
    rw [Step.bind_of_ok hopened]
    exact ⟨hrun, handle, calls, rfl, hV⟩
  · rw [Step.bind_of_ok hopened]
    exact herr hp

end

section
variable {limit : Nat} {w : Writer τ}

mutual

theorem tells_entry (hw : w.Accepts) : ∀ (e : Entry) {depth : Nat}, depth ≤ limit →
    Tells limit (depth + e.depth ≤ limit) (OfEntry e) (w.logged.entry limit depth e)
  | .token t, depth, hd => by
    rw [Writer.entry]
    exact .mono (tells_offer hw t) (iff_true_intro hd) fun _ h => h
  | .submodule name cs es, depth, _ => by
    rw [Writer.entry, Entry.depth]
    by_cases hl : limit ≤ depth
    · simp only [hl, ite_true]
      exact .refuse (by omega) _
    · simp only [hl, ite_false]
      refine .mono (tells_opened hw fun handle => .bind (tells_claims hw cs)
        (.bind (tells_bracket hw es (Nat.lt_of_not_le hl)) (.call (hw.closeSubmodule handle)))) ?_ ?_
      · simp only [true_and, and_true]
        omega
      · rintro _ ⟨handle, _, rfl, _, _, rfl, rfl, _, _, rfl, h, rfl⟩
        exact .submodule name handle h

theorem tells_bracket (hw : w.Accepts) : ∀ (es : List Entry) {depth : Nat}, depth ≤ limit →
    Tells limit (depth + Entry.deepest es ≤ limit) (OfBracket es) (w.logged.bracket limit depth es)
  | [], depth, hd => by
    rw [Writer.bracket]
    exact .mono (.nothing .empty) (iff_true_intro hd) fun _ h => h
  | first :: rest, depth, hd => by
    rw [Writer.bracket, Entry.deepest]
    refine .mono (.bind (.call hw.startSection) (.bind (tells_entry hw first hd) (.bind (tells_entries hw rest hd)
      (.call hw.endSection)))) ?_ ?_
    · simp only [true_and, and_true]
      omega
    · rintro _ ⟨_, _, rfl, rfl, _, _, rfl, h, _, _, rfl, hr, rfl⟩
      have := OfBracket.bracket (.cons h hr)
      rwa [List.append_assoc] at this

theorem tells_entries (hw : w.Accepts) : ∀ (es : List Entry) {depth : Nat}, depth ≤ limit →
    Tells limit (depth + Entry.deepest es ≤ limit) (OfEntries es) (w.logged.entries limit depth es)
  | [], depth, hd => by
    rw [Writer.entries]
    exact .mono (.nothing .nil) (iff_true_intro hd) fun _ h => h
  | first :: rest, depth, hd => by
    rw [Writer.entries, Entry.deepest]
    refine .mono (.bind (tells_entry hw first hd) (tells_entries hw rest hd)) ?_ ?_
    · omega
    · rintro _ ⟨_, _, rfl, h, hr⟩
      exact .cons h hr

end

theorem tells_deliver (hw : w.Accepts) (m : ClaimSet) :
    Tells limit (m.depth ≤ limit) (Of m) (w.logged.deliver limit m) := by
  rw [Writer.deliver, ClaimSet.depth]
  refine .mono (.bind (tells_claims hw m.claims) (.bind (.call hw.startSection)
    (.bind (tells_entries hw m.entries (Nat.zero_le _)) (.call hw.endSection)))) ?_ ?_
  · simp only [true_and, and_true]
    omega
  · rintro _ ⟨_, _, rfl, rfl, _, _, rfl, rfl, _, _, rfl, h, rfl⟩
    exact .deliver h

end

end Trace

/-! ## Whole walks -/

/-- What a walk from a cursor, which stands in `here`, comes to with a writer that takes everything: its answer,
the cursor after it and the calls on the writer. -/
structure Walk.Traced (limit : Nat) (c : Cursor) (here : ClaimSet)
    (run : Except Error Unit × Cursor × τ × List Call) : Prop where
  answer : run.1 = if here.depth ≤ limit then .ok () else .error (.tooDeep limit)
  cursor (h : here.depth ≤ limit) : run.2.1 = { c with claimsRead := here.claims.length }
  calls (h : here.depth ≤ limit) : Trace.Of (c.ahead here) run.2.2.2

theorem Walk.proceed_traced {here : ClaimSet} {c : Cursor} (hc : c.Stands here)
    (hn : c.claimsRead ≤ here.claims.length) (limit : Nat) {w : Writer τ} (hw : w.Accepts) (t : τ) {items : Nat}
    (hx : (c.ahead here).extent ≤ items) : Traced limit c here
      (proceed limit Cursor.reader.onFst w.logged.onSnd items beginning (c, (t, []))) := by
  have hdeliver : Reaches (proceed limit Cursor.reader.onFst w.logged.onSnd items beginning) c
      (w.logged.deliver limit (c.ahead here)) _ _ := .deliver (Cursor.serves hc hn) hx
  have htells : Trace.Tells limit (here.depth ≤ limit) _ _ := Trace.tells_deliver hw (c.ahead here)
  obtain ⟨t', calls, hok, herr⟩ := htells t []
  by_cases hl : here.depth ≤ limit
  · obtain ⟨hdelivered, hcalls⟩ := hok hl
    rw [hdeliver.answer hdelivered]
    exact ⟨(if_pos hl).symm, fun _ => rfl, fun _ => hcalls⟩
  · obtain ⟨c', hrefused⟩ := hdeliver.failure (herr hl)
    rw [hrefused]
    exact ⟨(if_neg hl).symm, fun h => absurd h hl, fun h => absurd h hl⟩

/-- **The exact trace of a walk**, from wherever its cursor stands. More room than the root takes makes no
difference, so the walk ends by itself. -/
theorem Walk.run_traced {root : ClaimSet} {c : Cursor} (h : Cursor.Reachable root c) (limit : Nat) {w : Writer τ}
    (hw : w.Accepts) (t : τ) : ∃ here, c.Stands here ∧ c.claimsRead ≤ here.claims.length ∧
      Traced limit c here (run limit Cursor.reader.onFst w.logged.onSnd (c, (t, []))) ∧
      ∀ items, root.extent ≤ items →
        Traced limit c here (proceed limit Cursor.reader.onFst w.logged.onSnd items beginning (c, (t, []))) := by
  obtain ⟨here, hc, hn⟩ := h.stands
  obtain ⟨rfl, -⟩ := h.sound
  have hx := Cursor.extent_ahead_le hc
  exact ⟨here, hc, hn, proceed_traced hc hn limit hw t hx,
    fun items hi => proceed_traced hc hn limit hw t (Nat.le_trans hx hi)⟩

theorem recorder_accepts : (recorder true).Accepts where
  claim _ n := ⟨n, rfl⟩
  startSection n := ⟨n, rfl⟩
  endSection n := ⟨n, rfl⟩
  openSubmodule _ n := ⟨n + 1, n + 1, rfl⟩
  closeSubmodule _ n := ⟨n - 1, rfl⟩
  takesTokens n := ⟨n, rfl⟩
  token _ n := ⟨n, rfl⟩

/-- A claim, and a submodule with two claims, a token and a submodule. -/
def Walk.sample : ClaimSet where
  claims := [⟨1, .bool true⟩]
  entries := [.submodule "device" [⟨2, .int 7⟩, ⟨3, .null⟩]
    [.token ⟨.json, "raw", [0x7b, 0x7d]⟩, .submodule "part" [] []]]

/-- Inside of the submodule, behind its first claim. -/
theorem Walk.run_traced_inside :
    Cursor.Reachable sample { root := sample, path := [⟨0, 1⟩], claimsRead := 1 } ∧ (recorder true).Accepts ∧
      ∃ here : ClaimSet, Traced 1 { root := sample, path := [⟨0, 1⟩], claimsRead := 1 } here
        (run 1 Cursor.reader.onFst (recorder true).logged.onSnd
          ({ root := sample, path := [⟨0, 1⟩], claimsRead := 1 }, (0, []))) := by
  have h : Cursor.Reachable sample { root := sample, path := [⟨0, 1⟩], claimsRead := 1 } :=
    .nextClaim (.enter (.nextClaim .start) 0)
  obtain ⟨here, -, -, hrun, -⟩ := run_traced h 1 recorder_accepts 0
  exact ⟨h, recorder_accepts, here, hrun⟩

end ClaimRelay
