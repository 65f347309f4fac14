import Fasten.CheckpointFile
import Fasten.Lib.JsonCut

set_option autoImplicit false

/-! # The lines of a checkpoint file

Both SDKs read every line that either writes, and neither takes a line that was cut off for JSON. -/

namespace Fasten

open JsonText Utf8Order

/-! ## Readers -/

theorem inert_of_hexDigit {c : Char} {n : Nat} (h : Go.hexDigit c = some n) : Inert c := by
  refine ⟨?_, ?_, ?_, ?_, ?_, ?_⟩ <;> (rintro rfl; revert h; simp [Go.hexDigit])

/-- What `getu4` reads is an escape. -/
theorem escaped_of_getu4 {s r : List Char} {n : Nat} (h : Go.getu4 s = some (n, r)) :
    ∃ text, s = text ++ r ∧ Escaped text := by
  unfold Go.getu4 at h
  split at h
  · rename_i a b c d rest
    split at h
    · rename_i w x y z ha hb hc hd
      simp only [Option.some.injEq, Prod.mk.injEq] at h
      refine ⟨['\\', 'u', a, b, c, d], by rw [h.2]; rfl, .slash (by decide) ?_⟩
      intro e he
      simp only [List.mem_cons, List.not_mem_nil, or_false] at he
      rcases he with rfl | rfl | rfl | rfl
      · exact inert_of_hexDigit ha
      · exact inert_of_hexDigit hb
      · exact inert_of_hexDigit hc
      · exact inert_of_hexDigit hd
    · exact absurd h (by simp)
  · exact absurd h (by simp)

theorem escaped_of_readUnit {lone : Option Char} {s r : List Char} {c : Char}
    (h : Go.readUnit lone s = some (c, r)) : ∃ text, s = text ++ r ∧ Escaped text := by
  unfold Go.readUnit at h
  split at h
  · exact absurd h (by simp)
  · rename_i n rest hn
    obtain ⟨text, rfl, htext⟩ := escaped_of_getu4 hn
    have hlone : lone.map (·, rest) = some (c, r) → ∃ t, text ++ rest = t ++ r ∧ Escaped t := by
      intro h
      obtain ⟨_, -, heq⟩ := Option.map_eq_some_iff.1 h
      cases heq
      exact ⟨text, rfl, htext⟩
    split_ifs at h with hbmp
    · cases h
      exact ⟨text, rfl, htext⟩
    · split at h
      · rename_i m rest' hm
        obtain ⟨text', rfl, htext'⟩ := escaped_of_getu4 hm
        split_ifs at h with hpair
        · rw [Option.some.injEq, Prod.mk.injEq] at h
          exact ⟨text ++ text', by rw [h.2, List.append_assoc], htext.append htext'⟩
        · exact hlone h
      · exact hlone h

theorem keepsString_readCharWith (lone : Option Char) : KeepsString (Go.readCharWith lone) := by
  intro s c r hquote h
  have hescaped : ∃ text, s = text ++ r ∧ Escaped text := by
    cases s with
    | nil => exact absurd h (by simp [Go.readCharWith])
    | cons x s =>
      simp only [Go.readCharWith] at h
      split_ifs at h with hslash hu hctrl
      · exact escaped_of_readUnit h
      · cases s with
        | nil => exact absurd h (by simp)
        | cons e s =>
          have hread : e ≠ '\x7b' ∧ s = r := by
            by_cases hsol : e = '/'
            · rw [hsol] at h ⊢
              exact ⟨by decide, by simpa using congrArg (Option.map Prod.snd) h⟩
            · simp only [if_neg hsol] at h
              obtain ⟨c', hc', hr⟩ := Option.map_eq_some_iff.1 h
              refine ⟨?_, congrArg Prod.snd hr⟩
              rintro rfl
              exact absurd hc' (by simp [unshortEscape])
          exact ⟨['\\', e], by rw [hslash, hread.2]; rfl, .slash hread.1 (by simp)⟩
      · cases h
        exact ⟨[c], rfl, .raw (by simpa using hquote) hslash⟩
  obtain ⟨text, hs, htext⟩ := hescaped
  exact ⟨text, hs, fun _ => (htext.passes le_rfl).2⟩

theorem scans_readChar : Scans (textReader Go.readChar) :=
  scans_textReader (keepsString_readCharWith _)

theorem scans_pyReadChar : Scans (textReader pyReadChar) :=
  scans_textReader (keepsString_readCharWith _)

/-! ## What is written -/

theorem Go.EscapeOf.escaped {c : Char} {text : List Char} (h : Go.EscapeOf c text) : Escaped text := by
  cases h with
  | raw hback hquote _ => exact .raw hquote hback
  | short e he =>
    refine .slash ?_ (by simp)
    rintro rfl
    exact absurd (unshortEscape_of_shortEscape he).2 (by simp [unshortEscape])
  | unit _ => exact escaped_uEscape _
  | pair _ => exact (escaped_uEscape _).append (escaped_uEscape _)

def Sdk.escape : Sdk → Char → List Char
  | .python => asciiEscape
  | .go => Go.goEscape true

def Sdk.space : Sdk → List Char
  | .python => [' ']
  | .go => []

/-- The members of a line in the order they are written. -/
def Sdk.members (cp : Checkpoint) : Sdk → List (String × Json)
  | .python =>
    [("anchored_at", .str cp.anchoredAt), ("hash", .str cp.hash),
      ("monotonic_seq", .int cp.monotonicSeq), ("source_node_id", .str cp.sourceNodeId)]
  | .go =>
    [("source_node_id", .str cp.sourceNodeId), ("monotonic_seq", .int cp.monotonicSeq),
      ("hash", .str cp.hash), ("anchored_at", .str cp.anchoredAt)]

theorem sortKeys_toDict (cp : Checkpoint) : cp.toDict.sortKeys = .obj (Sdk.python.members cp) := by
  have h1 : ¬"monotonic_seq" ≤ "anchored_at" := by decide
  have h2 : ¬"monotonic_seq" ≤ "hash" := by decide
  have h3 : ¬"source_node_id" ≤ "anchored_at" := by decide
  have h4 : ¬"source_node_id" ≤ "hash" := by decide
  have h5 : ¬"source_node_id" ≤ "monotonic_seq" := by decide
  have h6 : ¬"hash" ≤ "anchored_at" := by decide
  simp only [Checkpoint.toDict, Json.sortKeys, sortKeysMembers, List.insertionSort_cons,
    List.insertionSort_nil, List.orderedInsert_cons, List.orderedInsert_nil, h1, h2, h3, h4, h5,
    h6, if_false, Sdk.members]

theorem Sdk.lineText_eq (sdk : Sdk) (cp : Checkpoint) :
    sdk.lineText cp
      = write (textWriter sdk.escape sdk.space) (Json.obj (sdk.members cp)).tree := by
  cases sdk with
  | python =>
    rw [Sdk.lineText, sortKeys_toDict]
    exact dumps_eq_write rfl rfl _
  | go => rfl

theorem Sdk.escapeOf (sdk : Sdk) (c : Char) : Go.EscapeOf c (sdk.escape c) := by
  cases sdk with
  | python => exact Go.escapeOf_asciiEscape c
  | go => exact Go.escapeOf_goEscape true c

theorem Sdk.isSpace_space (sdk : Sdk) : ∀ c ∈ sdk.space, isSpace c = true := by
  cases sdk <;> simp [Sdk.space, isSpace]

theorem Sdk.scannable (sdk : Sdk) : Scannable (textWriter sdk.escape sdk.space) :=
  scannable_textWriter (fun c => (sdk.escapeOf c).escaped)
    (fun c hc => inert_of_isSpace (sdk.isSpace_space c hc))

theorem Sdk.read_lineText {readChar : List Char → Option (Char × List Char)}
    (h : TakesEscapes readChar) (sdk : Sdk) (cp : Checkpoint) :
    read (textReader readChar) (sdk.lineText cp) = some (Json.obj (sdk.members cp)).tree := by
  rw [sdk.lineText_eq, h.read_write sdk.escapeOf sdk.isSpace_space]

/-! ### No line break -/

theorem notControl_of_escapeOf {c d : Char} {text : List Char} (h : Go.EscapeOf c text)
    (hd : d ∈ text) : ¬d < ' ' := by
  have hplain : ∀ {x : Char}, isPlain x = true → ¬x < ' ' := by
    intro x hx
    rw [isPlain, Bool.and_eq_true, decide_eq_true_eq] at hx
    exact not_lt_of_ge hx.1
  cases h with
  | raw _ _ hctrl => rw [List.mem_singleton.1 hd]; exact hctrl
  | short e he =>
    simp only [List.mem_cons, List.not_mem_nil, or_false] at hd
    rcases hd with rfl | rfl
    · decide
    · exact hplain (Go.isPlain_of_shortEscape he)
  | unit _ => exact hplain (Go.isPlain_of_mem_uEscape hd)
  | pair _ =>
    rcases List.mem_append.1 hd with hd | hd <;> exact hplain (Go.isPlain_of_mem_uEscape hd)

theorem Sdk.value_of_mem_members {sdk : Sdk} {cp : Checkpoint} {m : String × Json}
    (h : m ∈ sdk.members cp) : (∃ s, m.2 = .str s) ∨ m.2 = .int cp.monotonicSeq := by
  cases sdk <;> simp only [Sdk.members, List.mem_cons, List.not_mem_nil, or_false] at h <;>
    rcases h with rfl | rfl | rfl | rfl <;> simp

/-- Control characters are escaped. -/
theorem Sdk.notMem_lineText (sdk : Sdk) (cp : Checkpoint) {c : Char} (hc : c < ' ') :
    c ∉ sdk.lineText cp := by
  have hne : ∀ d : Char, ¬d < ' ' → c ≠ d := fun d hd heq => hd (heq ▸ hc)
  have hbody : ∀ s : String, c ∉ s.toList.flatMap sdk.escape ++ ['"'] := by
    intro s hmem
    rcases List.mem_append.1 hmem with hmem | hmem
    · obtain ⟨d, -, hd⟩ := List.mem_flatMap.1 hmem
      exact notControl_of_escapeOf (sdk.escapeOf d) hd hc
    · exact hne '"' (by decide) (List.mem_singleton.1 hmem)
  have hspace : c ∉ sdk.space := by
    cases sdk with
    | python => simpa [Sdk.space] using hne ' ' (by decide)
    | go => exact List.not_mem_nil
  rw [sdk.lineText_eq]
  intro hmem
  rcases List.mem_cons.1 hmem with h | hmem
  · exact hne _ (by decide) h
  · obtain ⟨m, hm, h | h⟩ := mem_writeMembers ⟨hne _ (by decide), hne _ (by decide),
      hne _ (by decide), hne _ (by decide), hspace⟩ List.not_mem_nil hmem
    · exact hbody _ h
    · rw [treeMembers_eq] at hm
      obtain ⟨member, hmember, rfl⟩ := List.mem_map.1 hm
      rcases Sdk.value_of_mem_members hmember with ⟨s, hs⟩ | hint
      · rw [hs] at h
        rcases List.mem_cons.1 h with h | h
        · exact hne '"' (by decide) h
        · exact hbody s h
      · rw [hint] at h
        have hplain := isPlain_of_isNumChar ((Json.intNumeral _).numeric c h)
        rw [isPlain, Bool.and_eq_true, decide_eq_true_eq] at hplain
        exact not_lt_of_ge hplain.1 hc

/-! ## Whole lines -/

theorem ofTree_members (sdk : Sdk) (cp : Checkpoint) :
    Json.ofTree (Json.obj (sdk.members cp)).tree = some (.obj (sdk.members cp)) := by
  cases sdk <;>
    simp [Sdk.members, Json.tree, treeMembers, Json.ofTree, ofTreeMembers,
      Go.ofNumeral_intNumeral, Dict.update, Dict.set]

theorem fromDict_members (sdk : Sdk) (cp : Checkpoint) :
    Checkpoint.fromDict (.obj (sdk.members cp)) = some cp := by
  cases sdk <;>
    simp [Sdk.members, Checkpoint.fromDict, checkpointFields, Dict.keys, Dict.get?]

/-- **Python reads every line**, its own and Go's. -/
theorem jsonLoads_lineText (sdk : Sdk) (cp : Checkpoint) :
    jsonLoads (sdk.lineText cp) = some (.obj (sdk.members cp)) := by
  rw [jsonLoads, sdk.read_lineText takesEscapes_pyReadChar, Option.bind_some, ofTree_members]

theorem validJSON_lineText (sdk : Sdk) (cp : Checkpoint) :
    Go.validJSON (bytes (sdk.lineText cp)) = some (Json.obj (sdk.members cp)).tree := by
  rw [Go.validJSON, Utf8.runes_bytes, sdk.read_lineText takesEscapes_readChar,
    Option.filter_some]
  refine if_pos (List.all_eq_true.2 fun t ht => ?_)
  have hpython : (Json.obj (sdk.members cp)).IsPython := by
    cases sdk <;> simp [Sdk.members, Json.IsPython, membersArePython, Dict.keys]
  exact hpython.validTokens t ht

/-- **Go reads every line**, its own and Python's. -/
theorem parseCheckpoint_lineText (sdk : Sdk) (cp : StoredCheckpoint) :
    Go.parseCheckpoint (bytes (sdk.lineText cp.toCheckpoint)) = some cp.toCheckpoint := by
  have hint : Go.unmarshalInt64 (.num (Json.intNumeral cp.monotonicSeq))
      = some cp.monotonicSeq := by
    simp only [Go.unmarshalInt64, Go.ofNumeral_intNumeral]
    exact if_pos cp.int64
  rw [Go.parseCheckpoint, validJSON_lineText]
  cases sdk <;>
    simp [Sdk.members, Json.tree, treeMembers, Dict.update, Dict.set, checkpointFields, Dict.get?,
      Go.unmarshalString, hint]

/-! ## Lines that were cut -/

theorem Sdk.exists_lineText (sdk : Sdk) (cp : Checkpoint) :
    ∃ rest, sdk.lineText cp = '\x7b' :: rest := by
  rw [sdk.lineText_eq]
  exact ⟨_, rfl⟩

/-- What a cut leaves of a line: its first characters, and bytes of the one that was cut. -/
theorem Sdk.exists_cut {sdk : Sdk} {cp : Checkpoint} {a b : List UInt8}
    (hab : bytes (sdk.lineText cp) = a ++ b) (ha : a ≠ []) (hb : b ≠ []) :
    ∃ (pre post : List Char) (junk : List UInt8), sdk.lineText cp = ('\x7b' :: pre) ++ post
      ∧ post ≠ [] ∧ a = bytes ('\x7b' :: pre) ++ junk ∧ (junk = [] ∨ ∃ c, Utf8.CutChar c junk) := by
  have hlen : a.length < (bytes (sdk.lineText cp)).length := by
    have hpos := List.length_pos_iff.2 hb
    rw [hab, List.length_append]
    omega
  obtain ⟨pre, post, c, junk, htext, htake, hjunk⟩ := Utf8.take_bytes _ _ hlen
  rw [hab, List.take_left] at htake
  obtain ⟨rest, hrest⟩ := sdk.exists_lineText cp
  cases pre with
  | nil =>
    -- the brace is one byte, so nothing but the empty text is cut before it
    rw [hrest] at htext
    obtain ⟨rfl, -⟩ := List.cons.inj htext
    rcases hjunk with rfl | hcut
    · exact absurd htake ha
    · exact absurd hcut.high.1 (by decide)
  | cons d pre =>
    rw [hrest] at htext
    obtain ⟨rfl, hpost⟩ := List.cons.inj htext
    exact ⟨pre, c :: post, junk, by rw [hrest, hpost]; rfl, List.cons_ne_nil _ _, htake,
      hjunk.imp_right (fun hcut => ⟨c, hcut⟩)⟩

theorem inert_of_high {c : Char} (h : 0x80 ≤ c.toNat) : Inert c := by
  refine ⟨?_, ?_, ?_, ?_, ?_, ?_⟩ <;> (rintro rfl; revert h; decide)

/-- **Go takes no cut line for JSON.** -/
theorem Sdk.validJSON_cut {sdk : Sdk} {cp : Checkpoint} {a b : List UInt8}
    (hab : bytes (sdk.lineText cp) = a ++ b) (ha : a ≠ []) (hb : b ≠ []) :
    Go.validJSON a = none := by
  obtain ⟨pre, post, junk, htext, hpost, rfl, hjunk⟩ := sdk.exists_cut hab ha hb
  have hinert : ∀ c ∈ Utf8.runes junk, Inert c := by
    intro c hc
    rcases hjunk with rfl | ⟨d, hcut⟩
    · cases hc
    · exact inert_of_high (Utf8.high_of_mem_runes hcut.high.2 c hc)
  rw [sdk.lineText_eq] at htext
  rw [Go.validJSON, Utf8.runes_append,
    scans_readChar.read_cut sdk.scannable htext (List.cons_ne_nil _ _) hpost hinert]
  rfl

/-- **Nor does Python**, where a cut leaves whole characters. -/
theorem Sdk.jsonLoads_cut {sdk : Sdk} {cp : Checkpoint} {pre post : List Char}
    (htext : sdk.lineText cp = pre ++ post) (hpre : pre ≠ []) (hpost : post ≠ []) :
    jsonLoads pre = none := by
  rw [sdk.lineText_eq] at htext
  have hread := scans_pyReadChar.read_cut sdk.scannable htext hpre hpost
    (fun c (hc : c ∈ []) => absurd hc List.not_mem_nil)
  rw [List.append_nil] at hread
  rw [jsonLoads, hread]
  rfl

end Fasten
