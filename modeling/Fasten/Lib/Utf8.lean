import Fasten.Lib.Utf8Order

set_option autoImplicit false

/-! # UTF-8 texts cut anywhere

Decoding bytes, strictly and with a replacement for what is no character, and what is left of a text
when its bytes are cut: the characters before the cut, and of the character that was cut only bytes
that no ASCII character has. -/

namespace Utf8

open Utf8Order

/-! ## Decoding -/

/-- The character at the front of some bytes. -/
def decodeChar? (b : List UInt8) : Option Char := b.toByteArray.utf8DecodeChar? 0

/-- The text that the bytes are, if they are one. -/
def decode (b : List UInt8) : Option (List Char) := b.toByteArray.utf8Decode?.map Array.toList

def replacement : Char := '�'

/-- The characters of the bytes; a byte that starts none is one replacement character. -/
def runesAux : Nat → List UInt8 → List Char
  | 0, _ => []
  | _ + 1, [] => []
  | fuel + 1, b :: bs =>
    match decodeChar? (b :: bs) with
    | some c => c :: runesAux fuel ((b :: bs).drop (String.utf8EncodeChar c).length)
    | none => replacement :: runesAux fuel bs

def runes (b : List UInt8) : List Char := runesAux b.length b

theorem decodeChar?_encode (c : Char) (rest : List UInt8) :
    decodeChar? (String.utf8EncodeChar c ++ rest) = some c := by
  have h := List.utf8DecodeChar?_utf8Encode_singleton_append (b := rest.toByteArray) (c := c)
  rw [List.utf8Encode, List.flatMap_singleton, ← List.toByteArray_append] at h
  exact h

variable {b : List UInt8} {c : Char}

theorem exists_of_decodeChar? (h : decodeChar? b = some c) :
    ∃ rest, b = String.utf8EncodeChar c ++ rest := by
  have hb := ByteArray.eq_of_utf8DecodeChar?_eq_some h
  refine ⟨(b.toByteArray.extract c.utf8Size b.toByteArray.size).data.toList, ?_⟩
  have hdata := congrArg (fun a : ByteArray => a.data.toList) hb
  simpa using hdata

theorem decode_bytes (l : List Char) : decode (bytes l) = some l := by
  have h := List.utf8Decode?_utf8Encode (l := l)
  rw [List.utf8Encode] at h
  rw [decode, bytes, h]
  simp

theorem bytes_of_decode {l : List Char} (h : decode b = some l) : b = bytes l := by
  obtain ⟨a, ha, -⟩ := Option.map_eq_some_iff.1 h
  have hvalid := ByteArray.isSome_utf8Decode?_iff.1 (by rw [ha]; rfl : _ = true)
  obtain ⟨m, hm⟩ := hvalid
  have hb : b = bytes m := by
    have hdata := congrArg (fun a : ByteArray => a.data.toList) hm
    simpa [List.utf8Encode, bytes] using hdata
  rw [hb, decode_bytes, Option.some.injEq] at h
  rw [hb, h]

theorem bytes_append (l m : List Char) : bytes (l ++ m) = bytes l ++ bytes m :=
  List.flatMap_append

theorem bytes_cons (c : Char) (l : List Char) : bytes (c :: l) = String.utf8EncodeChar c ++ bytes l :=
  List.flatMap_cons

/-! ## The bytes of one character -/

/-- A character is one byte below `0x80`, or bytes from there on. -/
theorem utf8EncodeChar_cases (c : Char) :
    (c.toNat < 0x80 ∧ String.utf8EncodeChar c = [UInt8.ofNat c.toNat]) ∨
      (0x80 ≤ c.toNat ∧ ∀ b ∈ String.utf8EncodeChar c, 0x80 ≤ b.toNat) := by
  have hmax : c.toNat < 0x110000 := by
    have hvalid : c.toNat < 0xd800 ∨ 0xdfff < c.toNat ∧ c.toNat < 0x110000 := c.valid
    omega
  have hval : c.val.toNat = c.toNat := rfl
  unfold String.utf8EncodeChar
  simp only [hval]
  generalize c.toNat = n at hmax
  split_ifs with h1 h2 h3
  · exact Or.inl ⟨by omega, rfl⟩
  all_goals
    refine Or.inr ⟨by omega, fun b hb => ?_⟩
    simp only [List.mem_cons, List.not_mem_nil, or_false] at hb
    rcases hb with rfl | rfl | rfl | rfl <;> rw [UInt8.toNat_ofNat'] <;> omega

/-- A byte below `0x80` stands for its own character only. -/
theorem eq_of_mem_utf8EncodeChar {b : UInt8} (h : b ∈ String.utf8EncodeChar c)
    (hlow : b.toNat < 0x80) : c.toNat = b.toNat := by
  rcases utf8EncodeChar_cases c with ⟨hc, heq⟩ | ⟨-, hhigh⟩
  · rw [heq, List.mem_singleton] at h
    rw [h, UInt8.toNat_ofNat']
    omega
  · have := hhigh b h
    omega

theorem not_mem_bytes {l : List Char} (hc : c.toNat < 0x80) (h : c ∉ l) :
    UInt8.ofNat c.toNat ∉ bytes l := by
  intro hmem
  obtain ⟨d, hd, hb⟩ := List.mem_flatMap.1 hmem
  have hnat : (UInt8.ofNat c.toNat).toNat = c.toNat := by
    rw [UInt8.toNat_ofNat']
    omega
  have heq := eq_of_mem_utf8EncodeChar hb (by rw [hnat]; exact hc)
  rw [hnat] at heq
  have hcd : d = c := Char.ext (UInt32.toNat_inj.1 heq)
  exact h (hcd ▸ hd)

/-- No character's bytes begin those of another one. -/
theorem utf8EncodeChar_prefix_free {d : Char} {r s : List UInt8}
    (h : String.utf8EncodeChar c ++ r = String.utf8EncodeChar d ++ s) : c = d := by
  have hdec := decodeChar?_encode c r
  rw [h, decodeChar?_encode] at hdec
  exact (Option.some.inj hdec).symm

/-! ## A cut -/

/-- What a cut leaves of the character it went through. -/
structure CutChar (c : Char) (junk : List UInt8) : Prop where
  begun : junk ≠ []
  unfinished : ∃ rest, rest ≠ [] ∧ String.utf8EncodeChar c = junk ++ rest

theorem CutChar.high {junk : List UInt8} (h : CutChar c junk) :
    0x80 ≤ c.toNat ∧ ∀ b ∈ junk, 0x80 ≤ b.toNat := by
  obtain ⟨rest, hrest, heq⟩ := h.unfinished
  rcases utf8EncodeChar_cases c with ⟨-, hone⟩ | ⟨hc, hhigh⟩
  · -- one byte has no inside to cut
    have hlen := congrArg List.length (heq.symm.trans hone)
    have hjunk := List.length_pos_iff.2 h.begun
    have hpos := List.length_pos_iff.2 hrest
    simp only [List.length_append, List.length_singleton] at hlen
    omega
  · exact ⟨hc, fun b hb => hhigh b (by rw [heq]; exact List.mem_append_left _ hb)⟩

/-- **A text cut somewhere**: its characters up to the cut, and the bytes of one that was cut. -/
theorem take_bytes (l : List Char) (k : Nat) (hk : k < (bytes l).length) :
    ∃ (pre post : List Char) (c : Char) (junk : List UInt8), l = pre ++ c :: post
      ∧ (bytes l).take k = bytes pre ++ junk ∧ (junk = [] ∨ CutChar c junk) := by
  induction l generalizing k with
  | nil => simp [bytes] at hk
  | cons c l ih =>
    rw [bytes_cons, List.length_append] at hk
    by_cases hlt : k < (String.utf8EncodeChar c).length
    · refine ⟨[], l, c, (String.utf8EncodeChar c).take k, rfl, ?_, ?_⟩
      · rw [bytes_cons, List.take_append_of_le_length (le_of_lt hlt)]
        rfl
      · rcases Nat.eq_zero_or_pos k with rfl | hpos
        · exact Or.inl List.take_zero
        · refine Or.inr ⟨?_, (String.utf8EncodeChar c).drop k, ?_, ?_⟩
          · rw [← List.length_pos_iff, List.length_take]
            omega
          · rw [← List.length_pos_iff, List.length_drop]
            omega
          · rw [List.take_append_drop]
    · obtain ⟨pre, post, d, junk, hl, htake, hjunk⟩ :=
        ih (k - (String.utf8EncodeChar c).length) (by omega)
      refine ⟨c :: pre, post, d, junk, by rw [hl]; rfl, ?_, hjunk⟩
      rw [bytes_cons, List.take_append, List.take_of_length_le (by omega), htake, bytes_cons,
        List.append_assoc]

/-- Bytes that end inside a character are no text. -/
theorem decode_cut {junk : List UInt8} (h : CutChar c junk) (l : List Char) :
    decode (bytes l ++ junk) = none := by
  obtain ⟨rest, hrest, heq⟩ := h.unfinished
  cases hdec : decode (bytes l ++ junk) with
  | none => rfl
  | some m =>
    exfalso
    have hm := bytes_of_decode hdec
    clear hdec
    induction l generalizing m with
    | nil =>
      cases m with
      | nil => exact h.begun hm
      | cons d m =>
        rw [bytes_cons] at hm
        have hcd : String.utf8EncodeChar c ++ [] =
            String.utf8EncodeChar d ++ (bytes m ++ rest) := by
          rw [List.append_nil, heq, ← List.append_assoc, ← hm]
          rfl
        have hlen := congrArg List.length hcd
        rw [utf8EncodeChar_prefix_free hcd] at hlen
        have hpos := List.length_pos_iff.2 hrest
        simp only [List.length_append, List.length_nil] at hlen
        omega
    | cons d l ih =>
      cases m with
      | nil =>
        rw [bytes_cons] at hm
        exact utf8EncodeChar_ne_nil d
          (List.append_eq_nil_iff.1 (List.append_eq_nil_iff.1 hm).1).1
      | cons d' m =>
        rw [bytes_cons, bytes_cons, List.append_assoc] at hm
        have hd := utf8EncodeChar_prefix_free hm
        subst hd
        exact ih m (List.append_cancel_left hm)

theorem runesAux_of_le (b : List UInt8) :
    ∀ fuel fuel', b.length ≤ fuel → b.length ≤ fuel' → runesAux fuel b = runesAux fuel' b := by
  induction hn : b.length using Nat.strong_induction_on generalizing b with
  | _ n ih =>
    intro fuel fuel' hfuel hfuel'
    cases b with
    | nil => cases fuel <;> cases fuel' <;> rfl
    | cons x b =>
      simp only [List.length_cons] at hn
      obtain ⟨fuel, rfl⟩ : ∃ k, fuel = k + 1 := ⟨fuel - 1, by omega⟩
      obtain ⟨fuel', rfl⟩ : ∃ k, fuel' = k + 1 := ⟨fuel' - 1, by omega⟩
      simp only [runesAux]
      cases decodeChar? (x :: b) with
      | none => simp only; rw [ih b.length (by omega) b rfl fuel fuel' (by omega) (by omega)]
      | some c =>
        have hpos := List.length_pos_iff.2 (utf8EncodeChar_ne_nil c)
        simp only
        rw [ih _ ?_ _ rfl fuel fuel' ?_ ?_] <;>
          simp only [List.length_drop, List.length_cons] <;> omega

/-- The characters before a cut are all there. -/
theorem runes_append (l : List Char) (junk : List UInt8) :
    runes (bytes l ++ junk) = l ++ runes junk := by
  induction l with
  | nil => rfl
  | cons c l ih =>
    rw [bytes_cons, List.append_assoc]
    have hdec := decodeChar?_encode c (bytes l ++ junk)
    have hne := utf8EncodeChar_ne_nil c
    have hdrop : (String.utf8EncodeChar c ++ (bytes l ++ junk)).drop
        (String.utf8EncodeChar c).length = bytes l ++ junk := List.drop_left
    have hlen : (bytes l ++ junk).length
        < (String.utf8EncodeChar c ++ (bytes l ++ junk)).length := by
      have hpos := List.length_pos_iff.2 hne
      simp only [List.length_append]
      omega
    rw [runes]
    generalize String.utf8EncodeChar c ++ (bytes l ++ junk) = whole at hdec hdrop hlen
    cases whole with
    | nil => exact absurd hlen (by simp)
    | cons x whole =>
      rw [List.length_cons] at hlen ⊢
      simp only [runesAux, hdec]
      rw [hdrop, runesAux_of_le _ _ (bytes l ++ junk).length (by omega) le_rfl]
      exact congrArg (c :: ·) ih

theorem runes_bytes (l : List Char) : runes (bytes l) = l := by
  have h := runes_append l []
  rwa [List.append_nil, show runes [] = [] from rfl, List.append_nil] at h

theorem high_of_mem_runesAux {fuel : Nat} (h : ∀ x ∈ b, 0x80 ≤ x.toNat) :
    ∀ c ∈ runesAux fuel b, 0x80 ≤ c.toNat := by
  induction fuel generalizing b with
  | zero => simp [runesAux]
  | succ fuel ih =>
    cases b with
    | nil => simp [runesAux]
    | cons x b =>
      intro c hc
      simp only [runesAux] at hc
      cases hdec : decodeChar? (x :: b) with
      | none =>
        rw [hdec] at hc
        rcases List.mem_cons.1 hc with rfl | hc
        · decide
        · exact ih (fun y hy => h y (List.mem_cons_of_mem _ hy)) c hc
      | some d =>
        rw [hdec] at hc
        rcases List.mem_cons.1 hc with rfl | hc
        · obtain ⟨rest, hrest⟩ := exists_of_decodeChar? hdec
          rcases utf8EncodeChar_cases c with ⟨hlow, hone⟩ | ⟨hhigh, -⟩
          · -- an ASCII character would be a byte below `0x80`
            rw [hone] at hrest
            have hx := h x List.mem_cons_self
            rw [(List.cons.inj hrest).1, UInt8.toNat_ofNat'] at hx
            omega
          · exact hhigh
        · exact ih (fun y hy => h y (List.mem_of_mem_drop hy)) c hc

/-- Bytes from `0x80` on give no ASCII character. -/
theorem high_of_mem_runes (h : ∀ x ∈ b, 0x80 ≤ x.toNat) : ∀ c ∈ runes b, 0x80 ≤ c.toNat :=
  high_of_mem_runesAux h

end Utf8
