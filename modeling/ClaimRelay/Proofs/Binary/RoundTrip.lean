import ClaimRelay.Proofs.Binary.TwoPasses

/-!
# What is written is read back

A claim set is written exactly when it nests within the limit and its locations are under their label. What
is written is then read back as it was, doubles bit for bit, but for kinds of tokens that have a name, unless
its elements nest deeper than any reader follows.
-/

namespace ClaimRelay.Binary

theorem serves_start (m : ClaimSet) :
    Cursor.reader.Serves m { root := m } { root := m, claimsRead := m.claims.length } :=
  Cursor.serves (Cursor.stands_start m) (Nat.zero_le _)

theorem render_cursor {limit : Nat} {m : ClaimSet} (hm : m.depth ≤ limit ∧ m.Placed) :
    render limit Cursor.reader { root := m } = .ok (tokenNode m).encode := by
  have hx : m.extent ≤ Cursor.reader.extent { root := m } := Nat.le_refl _
  have hsecond := afterCounting_of_fits (serves_start m) hx hm (Nat.le_refl _)
  rw [if_pos rfl] at hsecond
  rw [render_of_fit (serves_start m) hx hm]
  exact hsecond

/-- **Round trip.** Sizes are those of a machine: the length of a body takes eight bytes at most. -/
theorem render_decode (limit : Nat) (m : ClaimSet) :
    ((∃ bytes, render limit Cursor.reader { root := m } = .ok bytes) ↔ m.depth ≤ limit ∧ m.Placed) ∧
    ∀ bytes, render limit Cursor.reader { root := m } = .ok bytes → bytes.length < UInt64.size →
      (m.nesting ≤ maxNesting → open? bytes = .ok { root := m.named }) ∧
      (maxNesting < m.nesting → open? bytes = .error (.tooDeep maxNesting)) ∧
      (limit ≤ Walk.defaultLimit → open? bytes = .ok { root := m.named }) := by
  have hfit : ∀ bytes, render limit Cursor.reader { root := m } = .ok bytes → m.depth ≤ limit ∧ m.Placed := by
    intro bytes h
    apply Classical.byContradiction
    intro hm
    obtain ⟨e, he, -⟩ := render_of_unfit (serves_start m) (Nat.le_refl _) hm
    rw [he] at h
    cases h
  refine ⟨⟨fun ⟨bytes, h⟩ => hfit bytes h, fun hm => ⟨_, render_cursor hm⟩⟩, fun bytes h hsize => ?_⟩
  have hm := hfit bytes h
  rw [render_cursor hm] at h
  cases h
  have hopen : m.nesting ≤ maxNesting → open? (tokenNode m).encode = .ok { root := m.named } := by
    intro hn
    unfold open?
    rw [decode_tokenNode hm.2 hsize, if_pos hn]
    rfl
  refine ⟨hopen, fun hn => ?_, fun hl => hopen ?_⟩
  · unfold open?
    rw [decode_tokenNode hm.2 hsize, if_neg (Nat.not_le.mpr hn)]
    rfl
  · have hnesting := m.nesting_le
    have hdepth := Nat.le_trans hm.1 hl
    unfold maxNesting
    unfold Walk.defaultLimit at hdepth
    omega

/-- A claim under a negative label, a location, a token of a kind with a name, and a submodule with another. -/
def sample : ClaimSet where
  claims := [⟨-129, .bool true⟩,
    ⟨264, .location { latitude := ⟨0x4049000000000000⟩, longitude := ⟨0x7ff8000000000001⟩, age := some 0 }⟩]
  entries := [.token ⟨.other 1, "a", [0x30, 0x00]⟩, .submodule "b" [⟨2, .null⟩] [.submodule "" [] []]]

theorem render_decode_sample : ∃ bytes, render 2 Cursor.reader { root := sample } = .ok bytes ∧
    bytes.length < UInt64.size ∧ open? bytes = .ok { root := sample.named } := by
  have hm : sample.depth ≤ 2 ∧ sample.Placed := by decide
  have hsize : (tokenNode sample).encode.length < UInt64.size := by decide +kernel
  obtain ⟨hopen, -, -⟩ := (render_decode 2 sample).2 _ (render_cursor hm) hsize
  exact ⟨_, render_cursor hm, hsize, hopen (by decide)⟩

end ClaimRelay.Binary
