import ClaimRelay.Proofs.Walk.Lockstep
import ClaimRelay.Proofs.Writer.Following
import ClaimRelay.Proofs.Writer.Passes

/-!
# Delivery to a writer that follows a builder

The items of a claim set come in the order of a walk. The first that is nested too deep, or that the writer has a
reason to refuse, is where delivery fails; where there is none, what has been built is the claim set.
-/

namespace ClaimRelay

variable {ς : Type}

/-! ## Items -/

/-- What a walk comes to, with what is before it at its level. -/
inductive Item
  | claim (before : List Claim) (c : Claim)
  | submodule (depth : Nat) (before : List String) (name : String)
  | token (before : List String) (name : String)

def Claim.items (before : List Claim) : List Claim → List Item
  | [] => []
  | c :: rest => .claim before c :: Claim.items (before ++ [c]) rest

mutual

def Entry.items (depth : Nat) (before : List String) : Entry → List Item
  | .submodule name claims entries =>
    .submodule depth before name :: (Claim.items [] claims ++ Entry.allItems (depth + 1) [] entries)
  | .token t => [.token before t.name]

def Entry.allItems (depth : Nat) (before : List String) : List Entry → List Item
  | [] => []
  | e :: rest => e.items depth before ++ Entry.allItems depth (before ++ [e.name]) rest

end

def ClaimSet.items (m : ClaimSet) : List Item := Claim.items [] m.claims ++ Entry.allItems 0 [] m.entries

namespace Writer

/-- Why an item is not delivered. -/
def Reasons.fault (q : Reasons) (limit : Nat) : Item → Option Error
  | .claim before c => q.claim before c
  | .submodule depth before name => if limit ≤ depth then some (.tooDeep limit) else q.name before name
  | .token before name => q.name before name

/-! ## What there is no reason to refuse -/

namespace Reasons

variable (q : Reasons)

def AllowsClaims (before : List Claim) : List Claim → Prop
  | [] => True
  | c :: rest => q.claim before c = none ∧ AllowsClaims (before ++ [c]) rest

mutual

def AllowsEntry : Entry → Prop
  | .submodule _ claims entries => q.AllowsClaims [] claims ∧ AllowsEntries [] entries
  | .token _ => True

def AllowsEntries (before : List String) : List Entry → Prop
  | [] => True
  | e :: rest => q.name before e.name = none ∧ AllowsEntry e ∧ AllowsEntries (before ++ [e.name]) rest

end

def Allows (m : ClaimSet) : Prop := q.AllowsClaims [] m.claims ∧ q.AllowsEntries [] m.entries

variable {q} {limit : Nat}

theorem findSome?_fault_cons (item : Item) (rest : List Item) :
    (item :: rest).findSome? (q.fault limit) = (q.fault limit item).or (rest.findSome? (q.fault limit)) := by
  rw [List.findSome?_cons]
  cases q.fault limit item <;> rfl

theorem claims_faultless {before : List Claim} {cs : List Claim} :
    (Claim.items before cs).findSome? (q.fault limit) = none ↔ q.AllowsClaims before cs := by
  induction cs generalizing before with
  | nil => exact iff_of_true rfl trivial
  | cons c cs ih =>
    rw [Claim.items, findSome?_fault_cons, Option.or_eq_none_iff, ih]
    rfl

mutual

theorem entry_faultless : ∀ (e : Entry) {depth : Nat} {before : List String}, depth ≤ limit →
    ((e.items depth before).findSome? (q.fault limit) = none ↔
      depth + e.depth ≤ limit ∧ q.name before e.name = none ∧ q.AllowsEntry e)
  | .token t, depth, before, hd => by
    simp [Entry.items, Entry.depth, Entry.name, AllowsEntry, fault, hd]
  | .submodule name cs es, depth, before, hd => by
    rw [Entry.items, findSome?_fault_cons, List.findSome?_append, Option.or_eq_none_iff, Option.or_eq_none_iff,
      claims_faultless, Entry.depth, AllowsEntry, Entry.name, fault]
    by_cases hl : limit ≤ depth
    · rw [if_pos hl]
      exact iff_of_false (fun h => nomatch h.1) (fun h => absurd h.1 (by omega))
    · rw [if_neg hl, entries_faultless es (Nat.lt_of_not_le hl), Nat.succ_add_eq_add_succ]
      exact ⟨fun ⟨hn, hc, hdeep, he⟩ => ⟨hdeep, hn, hc, he⟩, fun ⟨hdeep, hn, hc, he⟩ => ⟨hn, hc, hdeep, he⟩⟩

theorem entries_faultless : ∀ (es : List Entry) {depth : Nat} {before : List String}, depth ≤ limit →
    ((Entry.allItems depth before es).findSome? (q.fault limit) = none ↔
      depth + Entry.deepest es ≤ limit ∧ q.AllowsEntries before es)
  | [], depth, before, hd => iff_of_true rfl ⟨hd, trivial⟩
  | e :: rest, depth, before, hd => by
    have hmax : depth + max e.depth (Entry.deepest rest) ≤ limit ↔
        depth + e.depth ≤ limit ∧ depth + Entry.deepest rest ≤ limit := by omega
    rw [Entry.allItems, List.findSome?_append, Option.or_eq_none_iff, entry_faultless e hd, entries_faultless rest hd,
      Entry.deepest, AllowsEntries, hmax]
    exact ⟨fun ⟨⟨h₁, hn, he⟩, h₂, hr⟩ => ⟨⟨h₁, h₂⟩, hn, he, hr⟩, fun ⟨⟨h₁, h₂⟩, hn, he, hr⟩ => ⟨⟨h₁, hn, he⟩, h₂, hr⟩⟩

end

theorem items_faultless {m : ClaimSet} :
    m.items.findSome? (q.fault limit) = none ↔ m.depth ≤ limit ∧ q.Allows m := by
  rw [ClaimSet.items, List.findSome?_append, Option.or_eq_none_iff, claims_faultless,
    entries_faultless m.entries (Nat.zero_le limit), Nat.zero_add]
  exact and_left_comm

/-- What is allowed can only be too deep. -/
theorem fault_of_allowed {m : ClaimSet} {e : Error} (hm : q.Allows m)
    (h : m.items.findSome? (q.fault limit) = some e) : e = .tooDeep limit := by
  obtain ⟨item, hitem, hfault⟩ := List.exists_of_findSome?_eq_some h
  -- nothing is at fault when the limit is the depth itself
  have hfaultless : m.items.findSome? (q.fault m.depth) = none := items_faultless.mpr ⟨Nat.le_refl _, hm⟩
  have hnone := List.findSome?_eq_none_iff.mp hfaultless item hitem
  cases item with
  | claim before c => cases hfault.symm.trans hnone
  | token before name => cases hfault.symm.trans hnone
  | submodule depth before name =>
    simp only [fault] at hfault hnone
    by_cases hl : limit ≤ depth
    · rw [if_pos hl] at hfault
      exact (Option.some.inj hfault).symm
    · rw [if_neg hl] at hfault
      rw [hfault] at hnone
      split at hnone <;> cases hnone

end Reasons

/-! ## Building what is allowed -/

def Reasons.Clean (q : Reasons) : OpenLevel → List OpenLevel → Prop
  | top, [] => q.Allows ⟨top.claims, top.entries⟩
  | top, above :: outer =>
    q.Allows ⟨top.claims, top.entries⟩ ∧ q.name (above.entries.map Entry.name) top.name = none ∧ q.Clean above outer

namespace Reasons

variable {q : Reasons}

theorem Clean.top {top : OpenLevel} {outer : List OpenLevel} (h : q.Clean top outer) :
    q.Allows ⟨top.claims, top.entries⟩ := by
  cases outer with
  | nil => exact h
  | cons above outer => exact h.1

theorem Clean.with {top top' : OpenLevel} {outer : List OpenLevel} (h : q.Clean top outer) (hn : top'.name = top.name)
    (ha : q.Allows ⟨top'.claims, top'.entries⟩) : q.Clean top' outer := by
  cases outer with
  | nil => exact ha
  | cons above outer => exact ⟨ha, hn ▸ h.2.1, h.2.2⟩

theorem allowsClaims_concat {before cs : List Claim} {c : Claim} :
    q.AllowsClaims before (cs ++ [c]) ↔ q.AllowsClaims before cs ∧ q.claim (before ++ cs) c = none := by
  induction cs generalizing before with
  | nil => simp [AllowsClaims]
  | cons first rest ih => simp [AllowsClaims, ih, and_assoc]

theorem allowsEntries_concat {before : List String} {es : List Entry} {e : Entry} :
    q.AllowsEntries before (es ++ [e]) ↔
      q.AllowsEntries before es ∧ q.name (before ++ es.map Entry.name) e.name = none ∧ q.AllowsEntry e := by
  induction es generalizing before with
  | nil => simp [AllowsEntries]
  | cons first rest ih => simp [AllowsEntries, ih, and_assoc]

theorem Clean.withEntry {top : OpenLevel} {outer : List OpenLevel} {e : Entry} (h : q.Clean top outer)
    (hn : q.name (top.entries.map Entry.name) e.name = none) (he : q.AllowsEntry e) :
    q.Clean (Builder.withEntry top e) outer :=
  h.with rfl ⟨h.top.1, allowsEntries_concat.mpr ⟨h.top.2, hn, he⟩⟩

/-- What is built of requests that there is no reason to refuse has nothing in it to refuse. -/
theorem Clean.next {b : Builder} {r : Request} (h : q.Clean b.top b.outer) (ho : b.InOrder r)
    (hr : q.refusal b r = none) : q.Clean (b.next r).top (b.next r).outer := by
  cases r with
  | claim c => exact h.with rfl ⟨allowsClaims_concat.mpr ⟨h.top.1, hr⟩, h.top.2⟩
  | startSection => exact h.with rfl h.top
  | endSection => exact h.with rfl h.top
  | openSubmodule name => exact ⟨⟨trivial, trivial⟩, hr, h⟩
  | closeSubmodule handle =>
    obtain ⟨top, outer⟩ := b
    cases outer with
    | nil => exact h
    | cons above outer => exact h.2.2.withEntry h.2.1 h.1
  | token t => exact h.withEntry hr trivial

end Reasons

end Writer

/-! ## Delivery -/

theorem Step.ok_of_answer {α β : Type} {x : Step ς α} {f : α → β} {b : β} {s t : ς}
    (h : (do return f (← x) : Step ς β) s = (.ok b, t)) : ∃ a, x s = (.ok a, t) ∧ f a = b := by
  rw [Step.bind_apply] at h
  rcases hx : x s with ⟨e | a, u⟩ <;> rw [hx] at h <;> cases h
  exact ⟨a, rfl, rfl⟩

theorem Step.error_of_answer {α β : Type} {x : Step ς α} {f : α → β} {e : Error} {s t : ς}
    (h : (do return f (← x) : Step ς β) s = (.error e, t)) : x s = (.error e, t) := by
  rw [Step.bind_apply] at h
  rcases hx : x s with ⟨e | a, u⟩ <;> rw [hx] at h <;> cases h
  rfl

/-- How a step ends: with the error, if there is one, and otherwise in the state `t`. -/
def Step.Ends (x : Step ς Unit) (s : ς) (e : Option Error) (t : ς) : Prop :=
  match e with
  | none => x s = (.ok (), t)
  | some e => (x s).1 = .error e

namespace Step.Ends

variable {x y : Step ς Unit} {s t u : ς} {e e' : Option Error}

theorem bind (hx : x.Ends s e t) (hy : y.Ends t e' u) : (do x; y : Step ς Unit).Ends s (e.or e') u := by
  cases e with
  | none =>
    rw [Option.none_or]
    unfold Ends at *
    rwa [Step.bind_of_ok hx]
  | some e =>
    rw [Option.some_or]
    show ((do x; y) s).1 = _
    exact congrArg Prod.fst (Step.bind_of_error (Prod.ext hx rfl))

end Step.Ends

namespace Writer.Tracks

variable {w : Writer ς} {image : Builder → ς} {q : Reasons} {limit : Nat}

theorem ends {b : Builder} {r : Request} {x : Step ς Unit} (hw : w.Tracks image q) (hb : b.Sound) (h : b.InOrder r)
    (hx : w.answer r = (do x; return none)) : x.Ends (image b) (q.refusal b r) (image (b.next r)) := by
  unfold Step.Ends
  cases hr : q.refusal b r with
  | none =>
    obtain ⟨⟨⟩, hok, -⟩ := Step.ok_of_answer (hx ▸ hw.takes hb h hr)
    exact hok
  | some e => exact congrArg Prod.fst (Step.error_of_answer (hx ▸ hw.refuses hb h hr))

theorem opens {b : Builder} {name : String} {x : Nat → Step ς Unit} {e : Option Error} {t : ς} (hw : w.Tracks image q)
    (hb : b.Sound) (h : b.InOrder (.openSubmodule name))
    (hx : (x (b.outer.length + 1)).Ends (image ⟨{ name }, b.top :: b.outer⟩) e t) :
    (do let handle ← w.openSubmodule name; x handle : Step ς Unit).Ends (image b)
      ((q.name (b.top.entries.map Entry.name) name).or e) t := by
  cases hr : q.name (b.top.entries.map Entry.name) name with
  | none =>
    obtain ⟨handle, hok, hh⟩ := Step.ok_of_answer (hw.takes hb h hr)
    cases hh
    unfold Step.Ends at *
    rwa [Option.none_or, Step.bind_of_ok hok]
  | some e =>
    rw [Option.some_or]
    exact congrArg Prod.fst (Step.bind_of_error (Step.error_of_answer (hw.refuses hb h hr)))

variable {outer : List OpenLevel}

theorem startSection_ends (hw : w.Tracks image q) (ho : ∀ level ∈ outer, level.status = .running) (name : String)
    (cs : List Claim) : w.startSection.Ends (image ⟨⟨name, cs, [], .pending⟩, outer⟩) none
      (image ⟨⟨name, cs, [], .running⟩, outer⟩) :=
  hw.ends (b := ⟨⟨name, cs, [], .pending⟩, outer⟩) (r := .startSection) ⟨ho, fun _ => rfl⟩ rfl rfl

theorem endSection_ends (hw : w.Tracks image q) (ho : ∀ level ∈ outer, level.status = .running) (name : String)
    (cs : List Claim) (es : List Entry) : w.endSection.Ends (image ⟨⟨name, cs, es, .running⟩, outer⟩) none
      (image ⟨⟨name, cs, es, .ended⟩, outer⟩) :=
  hw.ends (b := ⟨⟨name, cs, es, .running⟩, outer⟩) (r := .endSection) ⟨ho, nofun⟩ rfl rfl

variable (limit)

theorem claims_ends (hw : w.Tracks image q) (ho : ∀ level ∈ outer, level.status = .running) (new : List Claim)
    (name : String) (cs : List Claim) : (w.claims new).Ends (image ⟨⟨name, cs, [], .pending⟩, outer⟩)
      ((Claim.items cs new).findSome? (q.fault limit)) (image ⟨⟨name, cs ++ new, [], .pending⟩, outer⟩) := by
  induction new generalizing cs with
  | nil =>
    rw [List.append_nil]
    rfl
  | cons c new ih =>
    rw [Writer.claims, Claim.items, Reasons.findSome?_fault_cons, List.append_cons cs c new]
    have hc := hw.ends (b := ⟨⟨name, cs, [], .pending⟩, outer⟩) (r := .claim c) ⟨ho, fun _ => rfl⟩ rfl rfl
    exact hc.bind (ih _)

mutual

theorem entry_ends (hw : w.Tracks image q) : ∀ (e : Entry) (name : String) (cs : List Claim) (es : List Entry)
    {outer : List OpenLevel}, (∀ level ∈ outer, level.status = .running) →
    (w.entry limit outer.length e).Ends (image ⟨⟨name, cs, es, .running⟩, outer⟩)
      ((e.items outer.length (es.map Entry.name)).findSome? (q.fault limit))
      (image ⟨⟨name, cs, es ++ [e], .running⟩, outer⟩)
  | .token t, name, cs, es, outer, ho => by
    rw [Writer.entry, Entry.items, Reasons.findSome?_fault_cons, List.findSome?_nil, Option.or_none]
    exact hw.ends (b := ⟨⟨name, cs, es, .running⟩, outer⟩) (r := .token t) ⟨ho, nofun⟩ rfl rfl
  | .submodule inner claims entries, name, cs, es, outer, ho => by
    rw [Writer.entry, Entry.items, Reasons.findSome?_fault_cons, Reasons.fault]
    by_cases hl : limit ≤ outer.length
    · rw [if_pos hl, if_pos hl, Option.some_or]
      rfl
    · rw [if_neg hl, if_neg hl]
      have hin : ∀ level ∈ ⟨name, cs, es, .running⟩ :: outer, level.status = .running :=
        List.forall_mem_cons.mpr ⟨rfl, ho⟩
      obtain ⟨status, hs, hp, hbracket⟩ := bracket_ends hw entries inner claims hin
      have hclose : (w.closeSubmodule (outer.length + 1)).Ends
          (image ⟨⟨inner, claims, entries, status⟩, ⟨name, cs, es, .running⟩ :: outer⟩) none
          (image ⟨⟨name, cs, es ++ [.submodule inner claims entries], .running⟩, outer⟩) :=
        hw.ends (b := ⟨⟨inner, claims, entries, status⟩, ⟨name, cs, es, .running⟩ :: outer⟩)
          (r := .closeSubmodule (outer.length + 1)) ⟨hin, hp⟩ ⟨nofun, rfl, hs⟩ rfl
      -- nothing can be at fault with closing, and with opening only the name
      have hclaims := claims_ends limit hw hin claims inner []
      have hbody := hclaims.bind (hbracket.bind hclose)
      rw [Option.or_none, ← List.findSome?_append] at hbody
      exact hw.opens (b := ⟨⟨name, cs, es, .running⟩, outer⟩) ⟨ho, nofun⟩ rfl hbody

theorem bracket_ends (hw : w.Tracks image q) : ∀ (new : List Entry) (name : String) (cs : List Claim)
    {outer : List OpenLevel}, (∀ level ∈ outer, level.status = .running) → ∃ status, status ≠ .running ∧
    (status = .pending → new = []) ∧ (w.bracket limit outer.length new).Ends (image ⟨⟨name, cs, [], .pending⟩, outer⟩)
      ((Entry.allItems outer.length [] new).findSome? (q.fault limit)) (image ⟨⟨name, cs, new, status⟩, outer⟩)
  | [], name, cs, outer, ho => ⟨.pending, nofun, fun _ => rfl, rfl⟩
  | first :: rest, name, cs, outer, ho => by
    have hstart := hw.startSection_ends ho name cs
    have hfirst := entry_ends hw first name cs [] ho
    have hrest := entries_ends hw rest name cs [first] ho
    have hend := hw.endSection_ends ho name cs (first :: rest)
    have hall := hstart.bind (hfirst.bind (hrest.bind hend))
    rw [Option.none_or, Option.or_none, ← List.findSome?_append] at hall
    exact ⟨.ended, nofun, nofun, hall⟩

theorem entries_ends (hw : w.Tracks image q) : ∀ (new : List Entry) (name : String) (cs : List Claim) (es : List Entry)
    {outer : List OpenLevel}, (∀ level ∈ outer, level.status = .running) →
    (w.entries limit outer.length new).Ends (image ⟨⟨name, cs, es, .running⟩, outer⟩)
      ((Entry.allItems outer.length (es.map Entry.name) new).findSome? (q.fault limit))
      (image ⟨⟨name, cs, es ++ new, .running⟩, outer⟩)
  | [], name, cs, es, outer, ho => by
    rw [List.append_nil]
    rfl
  | first :: rest, name, cs, es, outer, ho => by
    have hrest := entries_ends hw rest name cs (es ++ [first]) ho
    rw [List.map_append, List.map_singleton, List.append_assoc, List.singleton_append] at hrest
    rw [Writer.entries, Entry.allItems, List.findSome?_append]
    exact (entry_ends hw first name cs es ho).bind hrest

end

theorem deliver_ends (hw : w.Tracks image q) (m : ClaimSet) :
    (w.deliver limit m).Ends (image {}) (m.items.findSome? (q.fault limit))
      (image ⟨{ claims := m.claims, entries := m.entries, status := .ended }, []⟩) := by
  -- a section stands around the entries here whether or not there are any
  have ho := List.forall_mem_nil fun level : OpenLevel => level.status = .running
  have hclaims := claims_ends limit hw ho m.claims "" []
  have hstart := hw.startSection_ends ho "" m.claims
  have hentries := entries_ends limit hw m.entries "" m.claims [] ho
  have hend := hw.endSection_ends ho "" m.claims m.entries
  have hall := hclaims.bind (hstart.bind (hentries.bind hend))
  rwa [Option.none_or, Option.or_none, ← List.findSome?_append] at hall

end Writer.Tracks

/-- **Rendering.** A claim set that is served is rendered in one pass when there is nothing at fault with it, and
otherwise the first item at fault is reported. -/
theorem Renderer.Follows.render {w : Renderer ς} {s : ς} {image : Builder → ς} {q : Writer.Reasons}
    {output : ClaimSet → List UInt8} (hw : w.Follows s image q output) (hs : w.streaming s = true) {σ : Type}
    {r : Reader σ} {m : ClaimSet} {x x' : σ} (hm : r.Serves m x x') (hx : m.extent ≤ r.extent x) (limit : Nat) :
    (Render.run limit r.onFst w.onSnd (x, s)).1 =
      match m.items.findSome? (q.fault limit) with
      | none => .ok (output m)
      | some e => .error e := by
  have hends := hw.toFollows.deliver_ends limit m
  rw [Render.run_served hm hx hs]
  cases hfault : m.items.findSome? (q.fault limit) with
  | none =>
    rw [hfault] at hends
    obtain ⟨t, hfinish⟩ : ∃ t, w.finish (image ⟨{ claims := m.claims, entries := m.entries, status := .ended }, []⟩) =
        (.ok (.growable (output m)), t) :=
      ⟨_, Prod.ext (hw.finishes ⟨List.forall_mem_nil _, nofun⟩ rfl) rfl⟩
    rw [Step.bind_of_ok hw.starts, Step.bind_of_ok hends, hfinish]
    rfl
  | some e =>
    rw [hfault] at hends
    obtain ⟨t, hdeliver⟩ : ∃ t, w.deliver limit m (image {}) = (.error e, t) := ⟨_, Prod.ext hends rfl⟩
    rw [Step.bind_of_ok hw.starts, Step.bind_of_error hdeliver]
    rfl

end ClaimRelay
