import DialogueScript.Proofs.Scanner.Invariant
import Mathlib.Data.List.Pairwise
import Mathlib.Data.List.Perm.Subperm

/-!
The encoding of open blocks is exact. Widths that grow and fit in sixteen bits are read back as they
were written, no other bytes are read, but for none at all, and bytes that are refused are refused
for the first thing that is wrong with them.
-/

namespace DialogueScript

namespace IndentStack

/-- Every width fits in sixteen bits. -/
def Narrow (s : IndentStack) : Prop := ∀ w ∈ s.widths, w ≤ maxWidth

lemma narrow_empty : empty.Narrow := by simp [Narrow, empty]

lemma Narrow.pop {s : IndentStack} (h : s.Narrow) : s.pop.Narrow :=
  fun w hw => h w (List.dropLast_sublist s.widths |>.subset hw)

lemma Narrow.push {s : IndentStack} (h : s.Narrow) {w : Nat} (hw : w ≤ maxWidth) :
    (s.push w).Narrow := by
  intro v hv
  rcases List.mem_append.1 hv with hv | hv
  · exact h v hv
  · exact List.mem_singleton.1 hv ▸ hw

lemma measure_concat (tabWidth : Nat) (t : Text) (c : Char) :
    measure tabWidth (t ++ [c]) =
      min maxWidth (measure tabWidth t + if c = '\t' then tabWidth else 1) := by
  rw [measure, List.foldl_append]
  rfl

/-- The sum of some blanks stops at the largest width. -/
lemma measure_le (tabWidth : Nat) (t : Text) : measure tabWidth t ≤ maxWidth := by
  rcases t.eq_nil_or_concat with rfl | ⟨t, c, rfl⟩
  · simp [measure]
  · rw [List.concat_eq_append, measure_concat]
    exact min_le_left _ _

/-- Only tabs without a width take no columns. -/
lemma measure_eq_zero {tabWidth : Nat} {t : Text} (h : measure tabWidth t = 0) :
    ∀ c ∈ t, c = '\t' ∧ tabWidth = 0 := by
  induction t using List.reverseRecOn with
  | nil => simp
  | append_singleton t c ih =>
    have hc : c = '\t' ∧ tabWidth = 0 ∧ measure tabWidth t = 0 := by
      rw [measure_concat, maxWidth] at h
      split at h
      · next hc => exact ⟨hc, by omega, by omega⟩
      · omega
    intro d hd
    rcases List.mem_append.1 hd with hd | hd
    · exact ih hc.2.2 d hd
    · exact List.mem_singleton.1 hd ▸ ⟨hc.1, hc.2.1⟩

/-- Growing widths that fit in sixteen bits are at most as many as there are such numbers. -/
lemma Rising.length_le {s : IndentStack} (h : s.Rising) (hn : s.Narrow) :
    s.widths.length ≤ maxWidth := by
  have hnodup : s.widths.Nodup := (List.pairwise_cons.1 h).2.imp fun hlt => hlt.ne
  have hsub : s.widths ⊆ List.range' 1 maxWidth := by
    intro w hw
    have hpos : 0 < w := (List.pairwise_cons.1 h).1 w hw
    have hle := hn w hw
    rw [List.mem_range'_1]
    omega
  have hlen := (List.subperm_of_subset hnodup hsub).length_le
  rwa [List.length_range'] at hlen

lemma decodeWord_encode {n : Nat} (h : n ≤ maxWidth) :
    decodeWord (UInt8.ofNat n) (UInt8.ofNat (n / 256)) = n := by
  rw [maxWidth] at h
  simp only [decodeWord, UInt8.toNat_ofNat']
  omega

lemma length_flatMap_encodeWord (ws : List Nat) :
    (ws.flatMap encodeWord).length = 2 * ws.length := by
  induction ws with
  | nil => rfl
  | cons w ws ih =>
    rw [List.flatMap_cons, List.length_append, ih, List.length_cons]
    simp only [encodeWord, List.length_cons, List.length_nil]
    omega

/-- One width is read, if it exceeds the one before it. -/
lemma decodeLevels_encodeWord {w : Nat} (hw : w ≤ maxWidth) (index below : Nat)
    (rest : List UInt8) :
    decodeLevels index below (encodeWord w ++ rest) =
      if w ≤ below then .error (.notIncreasing index w)
      else (decodeLevels (index + 1) w rest).map (w :: ·) := by
  simp only [encodeWord, List.cons_append, List.nil_append, decodeLevels, decodeWord_encode hw]

/-- Widths that grow from a lower one on are read back. -/
lemma decodeLevels_flatMap {ws : List Nat} (index : Nat) {below : Nat}
    (h : (below :: ws).Pairwise (· < ·)) (hn : ∀ w ∈ ws, w ≤ maxWidth) :
    decodeLevels index below (ws.flatMap encodeWord) = .ok ws := by
  induction ws generalizing index below with
  | nil => rfl
  | cons w ws ih =>
    obtain ⟨h1, h2⟩ := List.pairwise_cons.1 h
    have hlt : below < w := h1 w List.mem_cons_self
    have hrest := ih (index + 1) h2 fun v hv => hn v (List.mem_cons_of_mem _ hv)
    rw [List.flatMap_cons, decodeLevels_encodeWord (hn w List.mem_cons_self),
      if_neg (by omega), hrest]
    rfl

/-- Reading stops at the first width that does not exceed the one before it. -/
lemma decodeLevels_flatMap_of_le {ws : List Nat} {w : Nat} (vs : List Nat) (index : Nat)
    {below : Nat} (h : (below :: ws).Pairwise (· < ·)) (hw : w ≤ ws.getLastD below)
    (hn : ∀ v ∈ ws ++ w :: vs, v ≤ maxWidth) :
    decodeLevels index below ((ws ++ w :: vs).flatMap encodeWord) =
      .error (.notIncreasing (index + ws.length) w) := by
  induction ws generalizing index below with
  | nil =>
    have hle : w ≤ below := hw
    rw [List.nil_append, List.flatMap_cons, decodeLevels_encodeWord (hn w List.mem_cons_self),
      if_pos hle]
    rfl
  | cons v ws ih =>
    obtain ⟨h1, h2⟩ := List.pairwise_cons.1 h
    have hlt : below < v := h1 v List.mem_cons_self
    have hrest := ih (index + 1) h2 (by rwa [List.getLastD_cons] at hw)
      fun u hu => hn u (List.mem_cons_of_mem _ hu)
    rw [List.cons_append, List.flatMap_cons, decodeLevels_encodeWord (hn v List.mem_cons_self),
      if_neg (by omega), hrest, List.length_cons, Nat.add_right_comm, Nat.add_assoc]
    rfl

/-- A number of levels that fits in sixteen bits is read back, and with it the widths are found. -/
lemma decode_encode_eq {s : IndentStack} (h : s.depth ≤ maxWidth) :
    decode s.encode = (decodeLevels 0 0 (s.widths.flatMap encodeWord)).map .mk := by
  have hcount : decodeWord (UInt8.ofNat s.widths.length) (UInt8.ofNat (s.widths.length / 256)) =
      s.widths.length := decodeWord_encode h
  have hlen := length_flatMap_encodeWord s.widths
  simp only [encode, encodeWord, List.cons_append, List.nil_append, decode, hcount]
  change (if (s.widths.flatMap encodeWord).length < _ then _ else _) = _
  rw [hlen, if_neg (by omega), if_neg (by omega)]

/-- **Open blocks are read back from their bytes.** -/
lemma decode_encode {s : IndentStack} (h : s.Rising) (hn : s.Narrow) : decode s.encode = .ok s := by
  rw [decode_encode_eq (h.length_le hn), decodeLevels_flatMap 0 h hn]
  rfl

/-! ### Which bytes are read -/

/-- What is wrong with some bytes, where each check is made only if those before it passed: the
number of levels is there, no byte is missing and none is too many, and every width exceeds the one
before it, the first one zero. -/
inductive Malformed : List UInt8 → DecodeError → Prop where
  | noCount (b : UInt8) : Malformed [b] (.truncated 2 1)
  | truncated {lo hi : UInt8} {rest : List UInt8} : rest.length < 2 * decodeWord lo hi →
      Malformed (lo :: hi :: rest) (.truncated (2 + 2 * decodeWord lo hi) (lo :: hi :: rest).length)
  | trailingBytes {lo hi : UInt8} {rest : List UInt8} {extra : Nat} : 0 < extra →
      rest.length = 2 * decodeWord lo hi + extra →
      Malformed (lo :: hi :: rest) (.trailingBytes extra)
  | notIncreasing {s : IndentStack} {width : Nat} {rest : List Nat} : s.Rising → width ≤ s.top →
      (mk (s.widths ++ width :: rest)).Narrow → (mk (s.widths ++ width :: rest)).depth ≤ maxWidth →
      Malformed (mk (s.widths ++ width :: rest)).encode (.notIncreasing s.depth width)

lemma Malformed.decode_eq {bytes : List UInt8} {e : DecodeError} (h : Malformed bytes e) :
    decode bytes = .error e := by
  cases h with
  | noCount b => rfl
  | @truncated lo hi rest hlt =>
    rw [decode]
    simp only [List.length_cons, if_pos hlt]
  | @trailingBytes lo hi rest extra hpos hlen =>
    rw [decode, if_neg (by omega), if_pos (by omega), hlen, Nat.add_sub_cancel_left]
  | @notIncreasing s width rest hs hw hn hd =>
    have hlevels := decodeLevels_flatMap_of_le rest 0 hs hw hn
    rw [decode_encode_eq hd, hlevels, Nat.zero_add]
    rfl

lemma decodeWord_le (lo hi : UInt8) : decodeWord lo hi ≤ maxWidth := by
  have hlo := lo.toNat_lt
  have hhi := hi.toNat_lt
  rw [decodeWord, maxWidth]
  omega

/-- Two bytes are written for just one number. -/
lemma encodeWord_decodeWord (lo hi : UInt8) : encodeWord (decodeWord lo hi) = [lo, hi] := by
  have hlo := lo.toNat_lt
  have hhi := hi.toNat_lt
  have h1 : UInt8.ofNat (decodeWord lo hi) = lo := by
    rw [← UInt8.toNat_inj, UInt8.toNat_ofNat', decodeWord]
    omega
  have h2 : UInt8.ofNat (decodeWord lo hi / 256) = hi := by
    rw [← UInt8.toNat_inj, UInt8.toNat_ofNat', decodeWord]
    omega
  rw [encodeWord, h1, h2]

/-- Any even number of bytes holds half as many numbers. -/
lemma exists_flatMap_encodeWord {n : Nat} {bytes : List UInt8} (h : bytes.length = 2 * n) :
    ∃ ws : List Nat, ws.length = n ∧ (∀ w ∈ ws, w ≤ maxWidth) ∧ bytes = ws.flatMap encodeWord := by
  induction n generalizing bytes with
  | zero => exact ⟨[], rfl, by simp, List.length_eq_zero_iff.1 h⟩
  | succ n ih =>
    match bytes, h with
    | lo :: hi :: rest, h =>
      have hrest : rest.length = 2 * n := by
        simp only [List.length_cons] at h
        omega
      obtain ⟨ws, h1, h2, h3⟩ := ih hrest
      refine ⟨decodeWord lo hi :: ws, by rw [List.length_cons, h1], ?_, ?_⟩
      · intro w hw
        rcases List.mem_cons.1 hw with rfl | hw
        · exact decodeWord_le lo hi
        · exact h2 w hw
      · rw [List.flatMap_cons, encodeWord_decodeWord, ← h3]
        rfl

/-- Numbers grow from a lower one on, or a first one does not exceed the one before it. -/
lemma pairwise_or_exists_le (below : Nat) (ws : List Nat) : (below :: ws).Pairwise (· < ·) ∨
    ∃ us w vs, ws = us ++ w :: vs ∧ (below :: us).Pairwise (· < ·) ∧ w ≤ us.getLastD below := by
  induction ws generalizing below with
  | nil => exact .inl (List.pairwise_singleton _ _)
  | cons v ws ih =>
    by_cases hv : v ≤ below
    · exact .inr ⟨[], v, ws, rfl, List.pairwise_singleton _ _, hv⟩
    · have hlt : below < v := by omega
      rcases ih v with h | ⟨us, w, vs, rfl, h, hw⟩
      · exact .inl (List.pairwise_cons_cons_iff_of_trans.2 ⟨hlt, h⟩)
      · refine .inr ⟨v :: us, w, vs, rfl, List.pairwise_cons_cons_iff_of_trans.2 ⟨hlt, h⟩, ?_⟩
        rwa [List.getLastD_cons]

/-- Every list of bytes is empty, encodes open blocks, or has something wrong with it. -/
lemma encoded_or_malformed (bytes : List UInt8) : bytes = [] ∨
    (∃ s : IndentStack, s.Rising ∧ s.Narrow ∧ bytes = s.encode) ∨ ∃ e, Malformed bytes e := by
  match bytes with
  | [] => exact .inl rfl
  | [b] => exact .inr (.inr ⟨_, .noCount b⟩)
  | lo :: hi :: rest =>
    right
    rcases Nat.lt_trichotomy rest.length (2 * decodeWord lo hi) with hlt | heq | hgt
    · exact .inr ⟨_, .truncated hlt⟩
    · obtain ⟨ws, hlen, hn, rfl⟩ := exists_flatMap_encodeWord heq
      have hencode : lo :: hi :: ws.flatMap encodeWord = (mk ws).encode := by
        rw [encode, hlen, encodeWord_decodeWord]
        rfl
      have hdepth : (mk ws).depth ≤ maxWidth := hlen.trans_le (decodeWord_le lo hi)
      rw [hencode]
      rcases pairwise_or_exists_le 0 ws with h | ⟨us, w, vs, rfl, h, hw⟩
      · exact .inl ⟨mk ws, h, hn, rfl⟩
      · exact .inr ⟨_, .notIncreasing (s := mk us) h hw hn hdepth⟩
    · obtain ⟨extra, hextra⟩ := Nat.exists_eq_add_of_lt hgt
      exact .inr ⟨_, .trailingBytes (Nat.succ_pos extra) hextra⟩

/-- **The encoding is exact**: growing widths are never too many for their number to be written and
are read back; nothing else is read, except that no bytes stand for no blocks; and all other bytes
are refused for the first thing that is wrong with them. -/
theorem decode_exact :
    (∀ s : IndentStack, s.Rising → s.Narrow → s.depth ≤ maxWidth ∧ decode s.encode = .ok s) ∧
    (∀ (bytes : List UInt8) (s : IndentStack), decode bytes = .ok s ↔
      (bytes = [] ∧ s = empty) ∨ (s.Rising ∧ s.Narrow ∧ bytes = s.encode)) ∧
    ∀ (bytes : List UInt8) (e : DecodeError), decode bytes = .error e ↔ Malformed bytes e := by
  refine ⟨fun s h hn => ⟨h.length_le hn, decode_encode h hn⟩, fun bytes s => ⟨fun h => ?_, ?_⟩,
    fun bytes e => ⟨fun h => ?_, Malformed.decode_eq⟩⟩
  · rcases encoded_or_malformed bytes with rfl | ⟨s', hs, hn, rfl⟩ | ⟨e, he⟩
    · exact .inl ⟨rfl, (Except.ok.inj h).symm⟩
    · obtain rfl : s' = s := Except.ok.inj ((decode_encode hs hn).symm.trans h)
      exact .inr ⟨hs, hn, rfl⟩
    · rw [he.decode_eq] at h
      cases h
  · rintro (⟨rfl, rfl⟩ | ⟨hs, hn, rfl⟩)
    · rfl
    · exact decode_encode hs hn
  · rcases encoded_or_malformed bytes with rfl | ⟨s, hs, hn, rfl⟩ | ⟨e', he⟩
    · cases h
    · rw [decode_encode hs hn] at h
      cases h
    · obtain rfl : e' = e := Except.error.inj (he.decode_eq.symm.trans h)
      exact he

/-- Four bytes that announce two levels, the second of which does not exceed the first. -/
example : decode [2, 0, 8, 0, 4, 0] = .error (.notIncreasing 1 4) := rfl

end IndentStack

end DialogueScript
