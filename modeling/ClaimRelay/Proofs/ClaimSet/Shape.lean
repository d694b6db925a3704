import ClaimRelay.Proofs.ClaimSet.Cursor

/-!
# Shapes of claim sets

What the binary format makes of a claim set: whether it can be written, how deep its elements nest, and which
of its kinds of tokens come back under another name.
-/

namespace ClaimRelay

/-! ## Labels -/

theorem Value.plain_or_location (v : Value) : v.ownLabel? = none ∨ ∃ l, v = .location l := by
  cases v <;> first | exact .inl rfl | exact .inr ⟨_, rfl⟩

/-- Whether a value that belongs under one label is there. -/
def Claim.Placed (c : Claim) : Prop := ∀ label ∈ c.value.ownLabel?, c.label = label

-- Named, for there is another instance, which tries every label there can be.
instance (c : Claim) : Decidable c.Placed := Option.decidableForallMem c.value.ownLabel?

mutual

def Entry.Placed : Entry → Prop
  | .submodule _ claims entries => (∀ c ∈ claims, c.Placed) ∧ Entry.AllPlaced entries
  | .token _ => True

def Entry.AllPlaced : List Entry → Prop
  | [] => True
  | entry :: rest => entry.Placed ∧ Entry.AllPlaced rest

end

mutual

def Entry.decidePlaced : (e : Entry) → Decidable e.Placed
  | .submodule _ claims entries =>
    have := Entry.decideAllPlaced entries
    inferInstanceAs (Decidable ((∀ c ∈ claims, c.Placed) ∧ Entry.AllPlaced entries))
  | .token _ => .isTrue trivial

def Entry.decideAllPlaced : (es : List Entry) → Decidable (Entry.AllPlaced es)
  | [] => .isTrue trivial
  | e :: rest =>
    have := Entry.decidePlaced e
    have := Entry.decideAllPlaced rest
    inferInstanceAs (Decidable (e.Placed ∧ Entry.AllPlaced rest))

end

/-- Whether every claim, in any submodule, has its label. -/
def ClaimSet.Placed (m : ClaimSet) : Prop := (∀ c ∈ m.claims, c.Placed) ∧ Entry.AllPlaced m.entries

instance (m : ClaimSet) : Decidable m.Placed :=
  have := Entry.decideAllPlaced m.entries
  inferInstanceAs (Decidable ((∀ c ∈ m.claims, c.Placed) ∧ Entry.AllPlaced m.entries))

theorem Entry.placed_of_mem {es : List Entry} {e : Entry} (h : Entry.AllPlaced es) (hm : e ∈ es) : e.Placed := by
  induction es with
  | nil => cases hm
  | cons first rest ih =>
    rcases List.mem_cons.mp hm with rfl | hm
    · exact h.1
    · exact ih h.2 hm

theorem Cursor.placed_of_follow {root here : ClaimSet} {path : List Descent} (h : root.Placed)
    (hf : follow root path = .ok here) : here.Placed := by
  induction path generalizing here with
  | nil =>
    cases hf
    exact h
  | cons d above ih =>
    obtain ⟨around, name, hf, he⟩ := follow_cons hf
    exact Entry.placed_of_mem (ih hf).2 (List.mem_of_getElem? he)

/-! ## Nesting -/

def Claim.nesting (c : Claim) : Nat :=
  match c.value with
  | .location _ => 3
  | _ => 1

def Claim.deepest (claims : List Claim) : Nat := (claims.map Claim.nesting).foldr max 0

mutual

def Entry.nesting : Entry → Nat
  | .submodule _ claims entries => 2 + (1 + max (Claim.deepest claims) (Entry.mostNesting entries))
  | .token _ => 2

def Entry.mostNesting : List Entry → Nat
  | [] => 0
  | entry :: rest => max entry.nesting (Entry.mostNesting rest)

end

/-- How deep elements with a body of elements nest in the token of a claim set. -/
def ClaimSet.nesting (m : ClaimSet) : Nat := 1 + max (Claim.deepest m.claims) (Entry.mostNesting m.entries)

theorem Claim.deepest_le (claims : List Claim) : Claim.deepest claims ≤ 3 := by
  induction claims with
  | nil => exact Nat.zero_le _
  | cons c rest ih =>
    have hc : c.nesting ≤ 3 := by
      unfold Claim.nesting
      split <;> simp
    exact Nat.max_le.mpr ⟨hc, ih⟩

mutual

theorem Entry.nesting_le : ∀ e : Entry, e.nesting ≤ 3 * e.depth + 3
  | .submodule name claims entries => by
    have hc := Claim.deepest_le claims
    have he := mostNesting_le entries
    rw [Entry.nesting, Entry.depth]
    omega
  | .token _ => by simp [Entry.nesting, Entry.depth]

theorem Entry.mostNesting_le : ∀ es : List Entry, Entry.mostNesting es ≤ 3 * Entry.deepest es + 3
  | [] => Nat.zero_le _
  | e :: rest => by
    have he := nesting_le e
    have hrest := mostNesting_le rest
    rw [Entry.mostNesting, Entry.deepest]
    omega

end

/-- A submodule takes three elements: itself, its token and its section. -/
theorem ClaimSet.nesting_le (m : ClaimSet) : m.nesting ≤ 3 * m.depth + 4 := by
  have hc := Claim.deepest_le m.claims
  have he := Entry.mostNesting_le m.entries
  rw [ClaimSet.nesting, ClaimSet.depth]
  omega

/-! ## Names of kinds -/

/-- A kind that has a name, under its name. -/
def TokenKind.named : TokenKind → TokenKind
  | .other 1 => .claimSet
  | .other 2 => .json
  | kind => kind

mutual

def Entry.named : Entry → Entry
  | .submodule name claims entries => .submodule name claims (Entry.allNamed entries)
  | .token t => .token { t with kind := t.kind.named }

def Entry.allNamed : List Entry → List Entry
  | [] => []
  | entry :: rest => entry.named :: Entry.allNamed rest

end

def ClaimSet.named (m : ClaimSet) : ClaimSet := ⟨m.claims, Entry.allNamed m.entries⟩

theorem TokenKind.code_ofCode (n : UInt32) : (ofCode n).code = n := by
  unfold ofCode
  split
  · exact (‹n = 1›).symm
  · split
    · exact (‹n = 2›).symm
    · rfl

theorem TokenKind.ofCode_code (kind : TokenKind) : ofCode kind.code = kind.named := by
  cases kind with
  | claimSet => rfl
  | json => rfl
  | other n =>
    unfold code ofCode
    by_cases h₁ : n = 1
    · subst h₁
      rfl
    · by_cases h₂ : n = 2
      · subst h₂
        rfl
      · rw [if_neg h₁, if_neg h₂]
        unfold named
        split <;> simp_all

theorem TokenKind.code_named (kind : TokenKind) : kind.named.code = kind.code := by
  rw [← ofCode_code, code_ofCode]

end ClaimRelay
