import ClaimRelay.Proofs.Json.Document

/-!
# The JSON writer follows a builder

The text written and the frames are a function of what has been built. A level whose entries are being put has two
objects open, its own and that of its entries, which is begun with the first of them.
-/

namespace ClaimRelay.Json.TextWriter

/-! ## The image of a builder -/

def keys (fields : List (String × Json)) : List String := (fields.map Prod.fst).reverse

/-- What there is before the content of a level: the text, the frames, and the number of objects begun. -/
structure Front where
  written : List Char := ['\x7b']
  frames : List Frame := []
  depth : Nat := 1

/-- The text of a level whose claims come after `front`, up to its entries, the last of which is complete. -/
def entriesText (l : Layout) (front : Front) (cs : List Claim) (es : List Entry) : List Char :=
  front.written ++ fieldsText l front.depth true (cs.map Claim.field) ++ keyText l front.depth cs.isEmpty entriesKey ++
    ['\x7b'] ++ fieldsText l (front.depth + 1) true (Entry.fields es)

def entriesFrames (front : Front) (cs : List Claim) (names : List String) : List Frame :=
  .sect names true :: .token (entriesKey :: keys (cs.map Claim.field)) .running :: front.frames

def descend (l : Layout) (name : String) (above : OpenLevel) (front : Front) : Front where
  written := entriesText l front above.claims above.entries ++
    keyText l (front.depth + 1) above.entries.isEmpty name ++ ['\x7b']
  frames := entriesFrames front above.claims (name :: keys (Entry.fields above.entries))
  depth := front.depth + 1 + 1

def under (l : Layout) (name : String) : List OpenLevel → Front
  | [] => {}
  | above :: further => descend l name above (under l above.name further)

def beside (l : Layout) (front : Front) (fields : List (String × Json)) (status : Section) (n : Nat) : TextWriter :=
  holding ⟨l, front.depth, !fields.isEmpty⟩ (front.written ++ fieldsText l front.depth true fields)
    (.token (keys fields) status :: front.frames) n

/-- A level in its section, where the object of the entries is begun with the first of them. -/
def amid (l : Layout) (front : Front) (cs : List Claim) (n : Nat) : List Entry → TextWriter
  | [] => holding ⟨l, front.depth, !cs.isEmpty⟩
      (front.written ++ fieldsText l front.depth true (cs.map Claim.field))
      (.sect [] false :: .token (keys (cs.map Claim.field)) .running :: front.frames) n
  | first :: rest => holding ⟨l, front.depth + 1, true⟩ (entriesText l front cs (first :: rest))
      (entriesFrames front cs (keys (Entry.fields (first :: rest)))) n

def inside (l : Layout) (level : OpenLevel) (front : Front) (n : Nat) : TextWriter :=
  match level.status with
  | .pending => beside l front (level.claims.map Claim.field) .pending n
  | .running => amid l front level.claims n level.entries
  | .ended => beside l front (ClaimSet.fields ⟨level.claims, level.entries⟩) .ended n

def ofBuilder (l : Layout) (b : Builder) : TextWriter :=
  inside l b.top (under l b.top.name b.outer) b.outer.length

/-! ## Keys -/

theorem keys_concat (fields : List (String × Json)) (key : String) (v : Json) :
    keys (fields ++ [(key, v)]) = key :: keys fields := by
  simp [keys]

theorem keys_isEmpty (fields : List (String × Json)) : (keys fields).isEmpty = fields.isEmpty := by
  simp [keys]

theorem mem_keys_claims {c : Claim} {cs : List Claim} :
    c.key ∈ keys (cs.map Claim.field) ↔ c.label ∈ cs.map Claim.label := by
  rw [keys, List.mem_reverse, List.map_map]
  exact Claim.mem_keys

theorem entriesKey_not_mem (cs : List Claim) : entriesKey ∉ keys (cs.map Claim.field) := by
  rw [keys, List.mem_reverse, List.map_map]
  intro h
  obtain ⟨c, -, hc⟩ := List.mem_map.mp h
  exact c.key_ne_entriesKey hc

theorem mem_keys_entries {name : String} {es : List Entry} :
    name ∈ keys (Entry.fields es) ↔ name ∈ es.map Entry.name := by
  rw [keys, List.mem_reverse, Entry.fields_eq_map, List.map_map]
  rfl

theorem addKey_fresh {key : String} {keys : List String} (h : key ∉ keys) (s : TextWriter) :
    addKey key keys s = (.ok (key :: keys), s) := by
  unfold addKey
  rw [if_neg h]
  rfl

theorem addKey_repeated {key : String} {keys : List String} (h : key ∈ keys) (s : TextWriter) :
    addKey key keys s = (.error (.structural (.repeatedKey key)), s) := by
  unfold addKey
  rw [if_pos h]
  rfl

/-! ## Single requests -/

section
variable {l : Layout} {front : Front} {name : String} {cs : List Claim} {es : List Entry} {n : Nat}

theorem beside_concat (fields : List (String × Json)) (key : String) (v : Json) :
    beside l front (fields ++ [(key, v)]) .pending n = holding ⟨l, front.depth, true⟩
      (front.written ++ fieldsText l front.depth true fields ++
        (keyText l front.depth fields.isEmpty key ++ text l front.depth v))
      (.token (key :: keys fields) .pending :: front.frames) n := by
  have hfields : (fields ++ [(key, v)]).isEmpty = false := by cases fields <;> rfl
  simp [beside, fieldsText_append, keys_concat, fieldsText, hfields]

theorem claim_inside {c : Claim} (hc : c.label ∉ cs.map Claim.label) :
    claim c (inside l ⟨name, cs, es, .pending⟩ front n) =
      (.ok (), inside l ⟨name, cs ++ [c], es, .pending⟩ front n) := by
  have hput := putField_adds (cs.map Claim.field).isEmpty c.key (.ofValue c.value)
    ⟨l, front.depth, !(cs.map Claim.field).isEmpty⟩
  simp only [inside, List.map_append, List.map_singleton, Claim.field, beside_concat]
  unfold claim
  rw [Step.bind_of_ok (Step.get_apply _)]
  show (addKey c.key _ >>= _) _ = _
  rw [Step.bind_of_ok (addKey_fresh (mt mem_keys_claims.mp hc) _), keys_isEmpty]
  exact hput ..

theorem claim_refused {c : Claim} (hc : c.label ∈ cs.map Claim.label) :
    claim c (inside l ⟨name, cs, es, .pending⟩ front n) =
      (.error (.structural (.repeatedKey c.key)), inside l ⟨name, cs, es, .pending⟩ front n) := by
  unfold claim
  rw [Step.bind_of_ok (Step.get_apply _)]
  exact Step.bind_of_error (addKey_repeated (mem_keys_claims.mpr hc) _)

theorem startSection_inside : startSection (inside l ⟨name, cs, [], .pending⟩ front n) =
    (.ok (), inside l ⟨name, cs, [], .running⟩ front n) := by
  unfold startSection
  rw [Step.bind_of_ok (Step.get_apply _)]
  simp only [inside, amid, beside, List.isEmpty_map]
  rfl

theorem endSection_inside : endSection (inside l ⟨name, cs, es, .running⟩ front n) =
    (.ok (), inside l ⟨name, cs, es, .ended⟩ front n) := by
  unfold endSection
  cases es with
  | nil =>
    have hpop : pop? (inside l ⟨name, cs, [], .running⟩ front n) = (.ok (some (.sect [] false)), holding
        ⟨l, front.depth, !cs.isEmpty⟩ (front.written ++ fieldsText l front.depth true (cs.map Claim.field))
        (.token (keys (cs.map Claim.field)) .running :: front.frames) n) := rfl
    rw [Step.bind_of_ok hpop]
    simp only [inside, beside, ClaimSet.fields, Entry.sectionFields, List.append_nil, List.isEmpty_map]
    rfl
  | cons first rest =>
    have hpop : pop? (inside l ⟨name, cs, first :: rest, .running⟩ front n) =
        (.ok (some (.sect (keys (Entry.fields (first :: rest))) true)), holding ⟨l, front.depth + 1, true⟩
          (entriesText l front cs (first :: rest))
          (.token (entriesKey :: keys (cs.map Claim.field)) .running :: front.frames) n) := rfl
    rw [Step.bind_of_ok hpop]
    refine (Step.bind_of_ok (endObject_adds ..)).trans ?_
    refine (Step.bind_of_ok (endField_adds ..)).trans ?_
    show (Except.ok (), holding ⟨l, front.depth, true⟩ (entriesText l front cs (first :: rest) ++
        (trail l front.depth true ++ ['\x7d']) ++ [])
        (.token (entriesKey :: keys (cs.map Claim.field)) .ended :: front.frames) n) = _
    have hfields : (ClaimSet.fields ⟨cs, first :: rest⟩).isEmpty = false := by cases cs <;> rfl
    have hkeys : keys (ClaimSet.fields ⟨cs, first :: rest⟩) = entriesKey :: keys (cs.map Claim.field) := keys_concat ..
    simp only [inside, beside, hfields, hkeys]
    simp [entriesText, ClaimSet.fields, Entry.sectionFields, fieldsText_append, fieldsText, text, Entry.fields]

/-! ## Entries -/

theorem amid_concat (e : Entry) : amid l front cs n (es ++ [e]) = holding ⟨l, front.depth + 1, true⟩
    (entriesText l front cs es ++
      (keyText l (front.depth + 1) es.isEmpty e.name ++ text l (front.depth + 1) e.json))
    (entriesFrames front cs (e.name :: keys (Entry.fields es))) n := by
  have htext : entriesText l front cs (es ++ [e]) = entriesText l front cs es ++
      (keyText l (front.depth + 1) es.isEmpty e.name ++ text l (front.depth + 1) e.json) := by
    simp [entriesText, Entry.fields_eq_map, fieldsText_append, fieldsText]
  have hkeys : keys (Entry.fields (es ++ [e])) = e.name :: keys (Entry.fields es) := by
    rw [Entry.fields_eq_map, List.map_append, List.map_singleton, keys_concat, Entry.fields_eq_map]
  rw [← htext, ← hkeys]
  cases es <;> rfl

theorem beginEntry_amid (hname : name ∉ es.map Entry.name) : beginEntry name (amid l front cs n es) =
    (.ok (), holding ⟨l, front.depth + 1, !es.isEmpty⟩
      (entriesText l front cs es ++ keyText l (front.depth + 1) es.isEmpty name)
      (entriesFrames front cs (name :: keys (Entry.fields es))) n) := by
  unfold beginEntry
  -- the first entry begins the object of the entries, and with it the field that the object is in
  cases es with
  | nil =>
    have hbegun : beginEntries (holding ⟨l, front.depth, !cs.isEmpty⟩
          (front.written ++ fieldsText l front.depth true (cs.map Claim.field))
          (.sect [] true :: .token (keys (cs.map Claim.field)) .running :: front.frames) n) =
        (.ok (), holding ⟨l, front.depth + 1, false⟩ (entriesText l front cs []) (entriesFrames front cs []) n) := by
      unfold beginEntries
      rw [Step.bind_of_ok (Step.get_apply _)]
      refine (Step.bind_of_ok (addKey_fresh (entriesKey_not_mem cs) _)).trans ?_
      rw [keys_isEmpty, List.isEmpty_map]
      refine (Step.bind_of_ok (beginField_adds (f := ⟨l, front.depth, !cs.isEmpty⟩) ..)).trans ?_
      refine (beginObject_adds ..).trans ?_
      simp [entriesText, entriesFrames, Entry.fields, fieldsText, Format.objectBegun]
    rw [Step.bind_of_ok (Step.get_apply _)]
    refine (Step.bind_of_ok hbegun).trans ?_
    refine (Step.bind_of_ok (addKey_fresh List.not_mem_nil _)).trans ?_
    exact beginField_adds (f := ⟨l, front.depth + 1, false⟩) ..
  | cons first rest =>
    rw [Step.bind_of_ok (Step.get_apply _)]
    refine (Step.bind_of_ok (addKey_fresh (mt mem_keys_entries.mp hname) _)).trans ?_
    rw [show (keys (Entry.fields (first :: rest))).isEmpty = (first :: rest).isEmpty from keys_isEmpty _]
    exact beginField_adds (f := ⟨l, front.depth + 1, true⟩) ..

theorem beginEntry_repeated (hname : name ∈ es.map Entry.name) : beginEntry name (amid l front cs n es) =
    (.error (.structural (.repeatedKey name)), amid l front cs n es) := by
  unfold beginEntry
  cases es with
  | nil => cases hname
  | cons first rest =>
    have htop : setTop (.sect (keys (Entry.fields (first :: rest))) true) (amid l front cs n (first :: rest)) =
        (.ok (), amid l front cs n (first :: rest)) := rfl
    rw [Step.bind_of_ok (Step.get_apply _)]
    refine (Step.bind_of_ok htop).trans ?_
    exact Step.bind_of_error (addKey_repeated (mem_keys_entries.mpr hname) _)

theorem token_inside {t : NestedToken} (ht : t.name ∉ es.map Entry.name) :
    token t (inside l ⟨name, cs, es, .running⟩ front n) =
      (.ok (), inside l ⟨name, cs, es ++ [.token t], .running⟩ front n) := by
  obtain ⟨b, hv⟩ := putValue_adds (Entry.token t).json ⟨l, front.depth + 1, !es.isEmpty⟩
  simp only [inside, amid_concat, ← List.append_assoc]
  unfold token
  rw [Step.bind_of_ok (beginEntry_amid ht)]
  refine Eq.trans (hv.bind endField_adds _ _ _) ?_
  simp [entriesFrames, Format.fieldEnded, Entry.name]

theorem openSubmodule_inside {inner : String} (hinner : inner ∉ es.map Entry.name) :
    openSubmodule inner (inside l ⟨name, cs, es, .running⟩ front n) =
      (.ok (n + 1), inside l { name := inner } (descend l inner ⟨name, cs, es, .running⟩ front) (n + 1)) := by
  unfold openSubmodule
  rw [inside, Step.bind_of_ok (beginEntry_amid hinner)]
  refine (Step.bind_of_ok (beginObject_adds ..)).trans ?_
  show (Except.ok (n + 1), holding ⟨l, front.depth + 1 + 1, false⟩ _ (.token [] .pending :: _) (n + 1)) = _
  simp [inside, beside, descend, fieldsText, keys]

theorem inside_of_not_running {level : OpenLevel} (hs : level.status ≠ .running)
    (hp : level.status = .pending → level.entries = []) :
    inside l level front n = beside l front (ClaimSet.fields ⟨level.claims, level.entries⟩) level.status n := by
  unfold inside
  cases hstatus : level.status with
  | pending => simp [hp hstatus, ClaimSet.fields, Entry.sectionFields]
  | running => exact absurd hstatus hs
  | ended => rfl

theorem closeSubmodule_beside (fields : List (String × Json)) {status : Section} (hs : status ≠ .running) {depth : Nat}
    (hfront : front.depth = depth + 1) :
    closeSubmodule (n + 1) (beside l front fields status (n + 1)) = (.ok (), holding ⟨l, depth, true⟩
      (front.written ++ fieldsText l front.depth true fields ++
        (trail l depth (!fields.isEmpty) ++ ['\x7d'])) front.frames n) := by
  have hdepth : ¬(n + 1 ≠ n + 1 ∨ n + 1 = 0) := by omega
  have hpop : pop? (beside l front fields status (n + 1)) = (.ok (some (.token (keys fields) status)), holding
      ⟨l, front.depth, !fields.isEmpty⟩ (front.written ++ fieldsText l front.depth true fields) front.frames (n + 1)) :=
    rfl
  unfold closeSubmodule
  rw [Step.bind_of_ok (Step.get_apply _)]
  refine (congrFun (if_neg hdepth) _).trans ?_
  refine (Step.bind_of_ok hpop).trans ?_
  refine (congrFun (if_neg hs) _).trans ?_
  rw [hfront]
  refine (Step.bind_of_ok (endObject_adds ..)).trans ?_
  refine (Step.bind_of_ok (endField_adds ..)).trans ?_
  rw [List.append_nil]
  rfl

theorem closeSubmodule_inside {inner : OpenLevel} (hs : inner.status ≠ .running)
    (hp : inner.status = .pending → inner.entries = []) :
    closeSubmodule (n + 1) (inside l inner (descend l inner.name ⟨name, cs, es, .running⟩ front) (n + 1)) =
      (.ok (), inside l ⟨name, cs, es ++ [.submodule inner.name inner.claims inner.entries], .running⟩ front n) := by
  rw [inside_of_not_running hs hp, closeSubmodule_beside _ hs rfl, inside, amid_concat]
  simp [descend, Entry.json, text, ClaimSet.fields, Entry.name]

theorem closeSubmodule_elsewhere {s : TextWriter} {handle : Nat} (h : handle ≠ s.submodules ∨ s.submodules = 0) :
    closeSubmodule handle s = (.error (.structural (.closingDepth handle s.submodules)), s) := by
  unfold closeSubmodule
  rw [Step.bind_of_ok (Step.get_apply s), if_pos h]
  rfl

theorem closeSubmodule_early {s : TextWriter} {handle : Nat} {names : List String} {begun : Bool} {outer : List Frame}
    (hf : s.frames = .sect names begun :: outer) (hh : handle = s.submodules) (hs : s.submodules ≠ 0) :
    closeSubmodule handle s = (.error (.structural .closedWithSectionOpen), { s with frames := outer }) := by
  obtain ⟨format, out, frames, d⟩ := s
  obtain rfl : frames = .sect names begun :: outer := hf
  have hdepth : ¬(handle ≠ d ∨ d = 0) := not_or.mpr ⟨fun hne => hne hh, hs⟩
  unfold closeSubmodule
  rw [Step.bind_of_ok (Step.get_apply _), if_neg hdepth]
  rfl

end

theorem writer_follows (l : Layout) : renderer.toWriter.Follows (ofBuilder l) reasons where
  takes {b r} hb h hr := by
    obtain ⟨⟨name, cs, es, status⟩, outer⟩ := b
    cases r with
    | claim c =>
      obtain rfl : status = .pending := h
      exact Step.bind_of_ok (claim_inside (reasons_claim_eq_none.mp hr))
    | startSection =>
      obtain rfl : status = .pending := h
      obtain rfl : es = [] := hb.pending rfl
      exact Step.bind_of_ok startSection_inside
    | endSection =>
      obtain rfl : status = .running := h
      exact Step.bind_of_ok endSection_inside
    | openSubmodule inner =>
      obtain rfl : status = .running := h
      exact Step.bind_of_ok (openSubmodule_inside (reasons_name_eq_none.mp hr))
    | token t =>
      obtain rfl : status = .running := h
      exact Step.bind_of_ok (token_inside (reasons_name_eq_none.mp hr))
    | closeSubmodule handle =>
      cases outer with
      | nil => exact absurd rfl h.1
      | cons above outer =>
        obtain ⟨-, rfl, hs⟩ := h
        obtain ⟨n, cs', es', st⟩ := above
        obtain rfl : st = .running := hb.running _ (.head _)
        exact Step.bind_of_ok (closeSubmodule_inside hs hb.pending)
  refuses {b r e} hb h hr := by
    obtain ⟨⟨name, cs, es, status⟩, outer⟩ := b
    cases r with
    | claim c =>
      obtain rfl : status = .pending := h
      obtain ⟨hc, rfl⟩ := reasons_claim_eq_some.mp hr
      exact Step.bind_of_error (claim_refused hc)
    | startSection => cases hr
    | endSection => cases hr
    | openSubmodule inner =>
      obtain rfl : status = .running := h
      obtain ⟨hn, rfl⟩ := reasons_name_eq_some.mp hr
      exact Step.bind_of_error (Step.bind_of_error (beginEntry_repeated hn))
    | token t =>
      obtain rfl : status = .running := h
      obtain ⟨hn, rfl⟩ := reasons_name_eq_some.mp hr
      have htoken : token t (ofBuilder l ⟨⟨name, cs, es, .running⟩, outer⟩) = _ :=
        Step.bind_of_error (beginEntry_repeated hn)
      exact Step.bind_of_error htoken
    | closeSubmodule handle => cases hr
  rejects {b r} hb h := by
    obtain ⟨⟨name, cs, es, status⟩, outer⟩ := b
    cases r with
    | claim c => cases status <;> cases es <;> first | exact absurd rfl h | exact ⟨_, _, rfl, .inr rfl⟩
    | startSection => cases status <;> cases es <;> first | exact absurd rfl h | exact ⟨_, _, rfl, .inr rfl⟩
    | endSection => cases status <;> first | exact absurd rfl h | exact ⟨_, _, rfl, .inl (.inl rfl)⟩
    | openSubmodule name => cases status <;> first | exact absurd rfl h | exact ⟨_, _, rfl, .inr rfl⟩
    | token t => cases status <;> first | exact absurd rfl h | exact ⟨_, _, rfl, .inr rfl⟩
    | closeSubmodule handle =>
      have hsub : (ofBuilder l ⟨⟨name, cs, es, status⟩, outer⟩).submodules = outer.length := by
        cases status <;> cases es <;> rfl
      rcases Builder.closing_not_inOrder h with hdepth | ⟨hh, houter, hs⟩
      · rw [← hsub] at hdepth
        exact ⟨_, _, Step.bind_of_error (closeSubmodule_elsewhere hdepth), .inr rfl⟩
      · obtain rfl : status = .running := hs
        have hframes : ∃ names begun rest,
            (ofBuilder l ⟨⟨name, cs, es, .running⟩, outer⟩).frames = .sect names begun :: rest := by
          cases es <;> exact ⟨_, _, _, rfl⟩
        obtain ⟨_, _, _, hframes⟩ := hframes
        rw [← hsub] at hh houter
        exact ⟨_, _, Step.bind_of_error (closeSubmodule_early hframes hh houter), .inl (.inr rfl)⟩

/-! ## Whole documents -/

theorem finish_early {s : TextWriter} {inner outer : Frame} {rest : List Frame}
    (h : s.frames = inner :: outer :: rest) : finish s = (.error (.structural .objectsStillOpen), s) := by
  unfold finish
  rw [Step.bind_of_ok (Step.get_apply s), h]
  cases inner <;> rfl

theorem finish_beside {l : Layout} (fields : List (String × Json)) {status : Section} {n : Nat}
    (hs : status ≠ .running) : finish (beside l {} fields status n) =
      (.ok (.growable (document l (.object fields))), { format := ⟨l, 0, !fields.isEmpty⟩, submodules := n }) := by
  have hclear : (modify fun s => { s with frames := [] } : Step TextWriter Unit) (beside l {} fields status n) =
      (.ok (), holding ⟨l, 1, !fields.isEmpty⟩ ('\x7b' :: fieldsText l 1 true fields) [] n) := rfl
  have hend := endObject_adds l 0 (!fields.isEmpty) ('\x7b' :: fieldsText l 1 true fields) [] n
  unfold finish
  rw [Step.bind_of_ok (Step.get_apply _)]
  refine (congrFun (if_neg hs) _).trans ?_
  refine (Step.bind_of_ok hclear).trans ?_
  rw [Step.bind_of_ok hend, document, text, ← List.append_assoc]
  rfl

theorem renderer_follows (l : Layout) :
    renderer.Follows (ofLayout l) (ofBuilder l) reasons fun m => document l m.json where
  toFollows := writer_follows l
  starts := by
    have h := beginObject_adds (f := { layout := l }) [] [.token [] .pending] 0
    refine Eq.trans h ?_
    simp [ofBuilder, inside, under, beside, fieldsText, keys, Format.objectBegun]
  finishes {b m} hb h := by
    obtain ⟨top, outer⟩ := b
    obtain ⟨⟨rfl, hs⟩, rfl⟩ := Builder.finish_eq_ok.mp h
    show (finish (ofBuilder l ⟨top, []⟩)).1 = _
    rw [ofBuilder, inside_of_not_running hs hb.pending]
    exact congrArg Prod.fst (finish_beside _ hs)
  goesOn {b e} hb h := by
    have hwhole := Builder.not_whole_of_finish h
    obtain ⟨⟨name, cs, es, status⟩, outer⟩ := b
    -- whatever is still open, there are two frames at least
    have hframes : ∃ inner outer' rest,
        (ofBuilder l ⟨⟨name, cs, es, status⟩, outer⟩).frames = inner :: outer' :: rest := by
      cases outer with
      | nil =>
        cases status with
        | running => cases es <;> exact ⟨_, _, _, rfl⟩
        | _ => exact absurd ⟨rfl, by simp⟩ hwhole
      | cons above further => cases status <;> cases es <;> exact ⟨_, _, _, rfl⟩
    obtain ⟨_, _, _, hframes⟩ := hframes
    exact ⟨_, congrArg Prod.fst (finish_early hframes)⟩

end ClaimRelay.Json.TextWriter
