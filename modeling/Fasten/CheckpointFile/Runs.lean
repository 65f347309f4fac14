import Fasten.CheckpointFile.Lines

set_option autoImplicit false

/-! # Checkpoint files survive crashes

Whatever is published by either SDK, and wherever an append is cut off, the file holds whole lines
and at most one unfinished one. Go reads back every checkpoint that was written completely. Python
does so too, unless the cut went through a character: it decodes the file before it looks at the
lines. -/

namespace Fasten

open JsonText Utf8Order

/-! ## The start of the last line -/

theorem rfind_none {b : UInt8} {chunk : List UInt8} (h : rfind b chunk = none) (j : Nat) :
    chunk[j]? ≠ some b := by
  rw [rfind, Option.map_eq_none_iff, List.idxOf?_eq_none_iff, List.mem_reverse] at h
  exact fun hj => h (List.mem_of_getElem? hj)

theorem rfind_some {b : UInt8} {chunk : List UInt8} {i : Nat} (h : rfind b chunk = some i) :
    chunk[i]? = some b ∧ ∀ j, i < j → chunk[j]? ≠ some b := by
  obtain ⟨k, hk, rfl⟩ := Option.map_eq_some_iff.1 h
  obtain ⟨hlt, hget, hbefore⟩ := List.idxOf?_eq_some_iff.1 hk
  rw [List.length_reverse] at hlt
  rw [List.getElem_reverse] at hget
  refine ⟨?_, fun j hj hb => ?_⟩
  · rw [List.getElem?_eq_getElem (by omega), hget]
  · obtain ⟨hjlt, hjb⟩ := List.getElem?_eq_some_iff.1 hb
    refine hbefore (chunk.length - 1 - j) (by omega) ?_
    rw [List.getElem_reverse]
    simp only [show chunk.length - 1 - (chunk.length - 1 - j) = j by omega]
    exact hjb

/-- The loop finds the last break, whatever the size of its chunks. -/
theorem lastLineStart_eq {size : Nat} (hsize : 0 < size) {head tail : List UInt8}
    (htail : newline ∉ tail) (hhead : head = [] ∨ ∃ a, head = a ++ [newline]) (fuel start : Nat)
    (hle : head.length ≤ start) (hend : start ≤ (head ++ tail).length) (hfuel : start ≤ fuel) :
    lastLineStart size (head ++ tail) fuel start = head.length := by
  have hbreak : head.length ≠ 0 → (head ++ tail)[head.length - 1]? = some newline := by
    rintro hne
    rcases hhead with rfl | ⟨a, rfl⟩
    · exact absurd rfl hne
    · simp
  have hafter : ∀ j, head.length ≤ j → (head ++ tail)[j]? ≠ some newline := by
    intro j hj hb
    rw [List.getElem?_append_right hj] at hb
    exact htail (List.mem_of_getElem? hb)
  generalize head ++ tail = file at *
  induction fuel generalizing start with
  | zero => rw [lastLineStart]; omega
  | succ fuel ih =>
    rw [lastLineStart]
    by_cases hzero : start = 0
    · rw [if_pos hzero]
      omega
    · rw [if_neg hzero]
      dsimp only
      obtain ⟨n, hn⟩ : ∃ n, n = min size start := ⟨_, rfl⟩
      rw [← hn]
      have hchunk : ∀ j, j < n →
          ((file.drop (start - n)).take n)[j]? = file[start - n + j]? := by
        intro j hj
        rw [List.getElem?_take_of_lt hj, List.getElem?_drop]
      have hnone : ∀ j, n ≤ j → ((file.drop (start - n)).take n)[j]? = none := by
        intro j hj
        rw [List.getElem?_take_eq_none hj]
      cases hfind : rfind newline ((file.drop (start - n)).take n) with
      | none =>
        have hno := rfind_none hfind
        refine ih (start - n) ?_ (by omega) (by omega)
        by_contra hgt
        -- the last break would be in the chunk
        refine hno (head.length - 1 - (start - n)) ?_
        rw [hchunk _ (by omega), ← hbreak (by omega)]
        congr 1
        omega
      | some i =>
        obtain ⟨hi, hlast⟩ := rfind_some hfind
        have hilt : i < n := by
          by_contra hge
          rw [hnone i (by omega)] at hi
          exact absurd hi (by simp)
        rw [hchunk i hilt] at hi
        have hbefore : start - n + i < head.length := by
          by_contra hge
          exact hafter _ (by omega) hi
        by_contra hne
        refine hlast (head.length - 1 - (start - n)) ?_ ?_
        · dsimp only at hne
          omega
        · rw [hchunk _ (by omega), ← hbreak (by omega)]
          congr 1
          omega

/-! ## Lines and cut lines -/

/-- The text of a line for `cp`, by either SDK. -/
def LineText (text : List Char) (cp : Checkpoint) : Prop :=
  ∃ (sdk : Sdk) (stored : StoredCheckpoint), cp = stored.toCheckpoint ∧ text = sdk.lineText cp

/-- The bytes of such a line. -/
def IsLine (t : List UInt8) (cp : Checkpoint) : Prop := ∃ text, LineText text cp ∧ t = bytes text

variable {t : List UInt8} {cp : Checkpoint}

theorem IsLine.ne_nil (h : IsLine t cp) : t ≠ [] := by
  obtain ⟨_, ⟨sdk, stored, rfl, rfl⟩, rfl⟩ := h
  obtain ⟨rest, hrest⟩ := sdk.exists_lineText stored.toCheckpoint
  rw [hrest, Utf8.bytes_cons]
  exact List.append_ne_nil_of_left_ne_nil (utf8EncodeChar_ne_nil _) _

theorem LineText.notMem {text : List Char} (h : LineText text cp) {c : Char} (hc : c < ' ') :
    c ∉ text := by
  obtain ⟨sdk, stored, rfl, rfl⟩ := h
  exact sdk.notMem_lineText _ hc

theorem IsLine.notMem (h : IsLine t cp) : newline ∉ t := by
  obtain ⟨text, htext, rfl⟩ := h
  exact Utf8.not_mem_bytes (by decide : ('\n').toNat < 0x80) (htext.notMem (by decide))

theorem IsLine.validLine (h : IsLine t cp) (sdk : Sdk) : sdk.validLine t = true := by
  obtain ⟨_, ⟨writer, stored, rfl, rfl⟩, rfl⟩ := h
  cases sdk with
  | python =>
    rw [Sdk.validLine, loadsBytes, Utf8.decode_bytes, Option.bind_some, jsonLoads_lineText]
    rfl
  | go => rw [Sdk.validLine, Go.jsonValid, validJSON_lineText]; rfl

theorem IsLine.validLine_cut {a b : List UInt8} (h : IsLine t cp) (hab : t = a ++ b) (ha : a ≠ [])
    (hb : b ≠ []) (sdk : Sdk) : sdk.validLine a = false := by
  obtain ⟨_, ⟨writer, stored, rfl, rfl⟩, rfl⟩ := h
  cases sdk with
  | python =>
    obtain ⟨pre, post, junk, htext, hpost, rfl, rfl | ⟨c, hcut⟩⟩ := writer.exists_cut hab ha hb
    · rw [Sdk.validLine, loadsBytes, List.append_nil, Utf8.decode_bytes, Option.bind_some,
        writer.jsonLoads_cut htext (List.cons_ne_nil _ _) hpost]
      rfl
    · rw [Sdk.validLine, loadsBytes, Utf8.decode_cut hcut]
      rfl
  | go => rw [Sdk.validLine, Go.jsonValid, writer.validJSON_cut hab ha hb]; rfl

/-! ## Publishing -/

open LineLog in
/-- Both SDKs leave the file at a line break, and drop no checkpoint. -/
theorem ended_endLastLine (sdk : Sdk) {file : List UInt8} {cps : List Checkpoint}
    (h : Shape IsLine newline file cps) :
    Ended IsLine newline file cps (endLastLine sdk.validLine file).1
      (endLastLine sdk.validLine file).2 := by
  obtain ⟨ls, tail, rest, hls, htail, rfl, rfl⟩ := h
  have hbreak : newline ∉ tail := htail.notMem (fun _ _ ht => ht.notMem)
  have hstart : lastLineStart 4096 (lines newline ls ++ tail) (lines newline ls ++ tail).length
      (lines newline ls ++ tail).length = (lines newline ls).length :=
    lastLineStart_eq (by decide) hbreak (lines_eq_nil_or newline ls) _ _ (by simp) le_rfl le_rfl
  have hlen : tail ≠ [] → (lines newline ls).length ≠ (lines newline ls ++ tail).length := by
    intro hne
    have hpos := List.length_pos_iff.2 hne
    rw [List.length_append]
    omega
  unfold endLastLine
  rw [hstart]
  dsimp only
  rw [List.drop_left, List.take_left]
  cases htail with
  | empty =>
    rw [if_pos (by simp)]
    exact ⟨ls, hls, by simp, by simp, Or.inl rfl⟩
  | @whole _ cp ht =>
    rw [if_neg (hlen ht.ne_nil), if_pos (ht.validLine sdk)]
    refine ⟨ls ++ [(tail, cp)], ?_, ?_, by simp, Or.inr ⟨rfl, rfl⟩⟩
    · intro l hl
      rcases List.mem_append.1 hl with hl | hl
      · exact hls l hl
      · rw [List.mem_singleton.1 hl]
        exact ht
    · rw [lines_append, lines_cons, List.append_assoc]
      rfl
  | cut ht hab ha hb =>
    rw [if_neg (hlen ha), if_neg (by rw [ht.validLine_cut hab ha hb sdk]; decide)]
    exact ⟨ls, hls, by simp, by simp, Or.inl rfl⟩

/-- **One publish, cut off anywhere, keeps the shape of the file.** -/
theorem Published.shape_step {s : Published} (h : LineLog.Shape IsLine newline s.file s.written)
    (p : Publish) : LineLog.Shape IsLine newline (s.step p).file (s.step p).written := by
  have htexts : ∀ l ∈ p.texts, IsLine l.1 l.2 := by
    intro l hl
    obtain ⟨cp, -, rfl⟩ := List.mem_map.1 hl
    exact ⟨_, ⟨p.sdk, cp, rfl, rfl⟩, rfl⟩
  rw [Published.step, publish]
  by_cases hnil : p.checkpoints = []
  · have hcomplete : p.complete s.file = [] := by
      rw [Publish.complete, Publish.texts, hnil]
      rfl
    rw [if_pos hnil, hcomplete, List.append_nil]
    exact h
  · rw [if_neg hnil]
    exact h.append (fun _ _ ht => ht.ne_nil) (ended_endLastLine p.sdk h) htexts p.cut

theorem published_shape (ps : List Publish) :
    LineLog.Shape IsLine newline (published ps).file (published ps).written := by
  have hrun : ∀ s : Published, LineLog.Shape IsLine newline s.file s.written →
      LineLog.Shape IsLine newline (ps.foldl Published.step s).file
        (ps.foldl Published.step s).written := by
    induction ps with
    | nil => exact fun s h => h
    | cons p ps ih => exact fun s h => ih (s.step p) (Published.shape_step h p)
  exact hrun _ ⟨[], [], [], by simp, .empty, rfl, rfl⟩

/-! ## Loading -/

section LoadLines

variable {L : Type} {blank valid : L → Bool} {parse : L → Option Checkpoint}
  {ls : List (L × Checkpoint)} (hls : ∀ l ∈ ls, blank l.1 = false ∧ parse l.1 = some l.2) {last : L}

include hls

theorem mapM_parse : ((ls.map Prod.fst).filter (fun line => !blank line)).mapM parse
    = some (ls.map Prod.snd) := by
  induction ls with
  | nil => rfl
  | cons l ls ih =>
    rw [List.forall_mem_cons] at hls
    simp [hls.1.1, hls.1.2, ih hls.2]

theorem loadLines_blank (hblank : blank last = true) :
    loadLines blank valid parse (ls.map Prod.fst) last = .loaded (ls.map Prod.snd) := by
  simp only [loadLines, mapM_parse hls, hblank, if_true]

theorem loadLines_unfinished (hblank : blank last = false) (hvalid : valid last = false) :
    loadLines blank valid parse (ls.map Prod.fst) last
      = .unfinishedLastLine (ls.map Prod.snd) := by
  simp [loadLines, mapM_parse hls, hblank, hvalid]

theorem loadLines_last (hblank : blank last = false) (hvalid : valid last = true)
    (hparse : parse last = some cp) :
    loadLines blank valid parse (ls.map Prod.fst) last = .loaded (ls.map Prod.snd ++ [cp]) := by
  simp [loadLines, mapM_parse hls, hblank, hvalid, hparse]

end LoadLines

/-- What a load returns of a file that holds `cps`. -/
def Loads (sdk : Sdk) (s : Published) : Prop :=
  sdk.load s.file = .loaded s.written ∨ sdk.load s.file = .unfinishedLastLine s.written

theorem brace_notSpace (rest : List Char) {space : Char → Bool} (h : space '\x7b' = false) :
    ('\x7b' :: rest).all space = false := by
  rw [List.all_cons, h]
  rfl

/-- **Go reads back what was written completely**, wherever an append was cut off. -/
theorem loads_go {s : Published} (h : LineLog.Shape IsLine newline s.file s.written) :
    Loads .go s := by
  obtain ⟨file, written⟩ := s
  obtain ⟨ls, tail, rest, hls, htail, hfile, hwritten⟩ := h
  dsimp only at hfile hwritten
  subst hfile hwritten
  have hblank : ∀ {t cp}, IsLine t cp →
      Go.blankLine t = false ∧ Go.parseCheckpoint t = some cp := by
    rintro t cp ⟨_, ⟨sdk, stored, rfl, rfl⟩, rfl⟩
    obtain ⟨rest, hrest⟩ := sdk.exists_lineText stored.toCheckpoint
    refine ⟨?_, parseCheckpoint_lineText sdk stored⟩
    rw [Go.blankLine, Utf8.runes_bytes, hrest]
    exact brace_notSpace rest (by decide)
  have hsplit := LineLog.splitOn_lines (fun l hl => (hls l hl).notMem)
    (htail.notMem (fun _ _ ht => ht.notMem))
  have hlines := fun l hl => hblank (hls l hl)
  unfold Loads
  rw [Sdk.load, Go.loadCheckpoints, hsplit, List.dropLast_concat, List.getLastD_concat]
  cases htail with
  | empty =>
    left
    dsimp only
    rw [loadLines_blank hlines rfl, List.append_nil]
  | whole ht =>
    left
    exact loadLines_last hlines (hblank ht).1 (ht.validLine .go) (hblank ht).2
  | cut ht hab ha hb =>
    right
    have hvalid := ht.validLine_cut hab ha hb .go
    obtain ⟨_, ⟨sdk, stored, rfl, rfl⟩, rfl⟩ := ht
    obtain ⟨pre, post, junk, -, -, rfl, -⟩ := sdk.exists_cut hab ha hb
    have hblank' : Go.blankLine (bytes ('\x7b' :: pre) ++ junk) = false := by
      rw [Go.blankLine, Utf8.runes_append, List.cons_append, brace_notSpace _ (by decide)]
    dsimp only
    rw [List.append_nil]
    exact loadLines_unfinished hlines hblank' hvalid

/-- The bytes are whole characters. -/
def WholeCharacters (file : List UInt8) : Prop := ∃ text, file = bytes text

theorem universalNewlines_eq {text : List Char} (h : '\r' ∉ text) :
    universalNewlines text = text := by
  induction text with
  | nil => rfl
  | cons c text ih =>
    rw [List.mem_cons, not_or] at h
    rw [universalNewlines, ih h.2]
    · rintro _ rfl
      exact absurd rfl h.1
    · rintro rfl
      exact absurd rfl h.1

/-- The lines as characters. -/
theorem exists_lineTexts {ls : List (List UInt8 × Checkpoint)} (h : ∀ l ∈ ls, IsLine l.1 l.2) :
    ∃ ms : List (List Char × Checkpoint), (∀ m ∈ ms, LineText m.1 m.2)
      ∧ ls.map Prod.snd = ms.map Prod.snd
      ∧ LineLog.lines newline ls = bytes (LineLog.lines '\n' ms) := by
  induction ls with
  | nil => exact ⟨[], by simp, rfl, rfl⟩
  | cons l ls ih =>
    rw [List.forall_mem_cons] at h
    obtain ⟨ms, hms, hsnd, hlines⟩ := ih h.2
    obtain ⟨text, htext, hbytes⟩ := h.1
    refine ⟨(text, l.2) :: ms, List.forall_mem_cons.2 ⟨htext, hms⟩, ?_, ?_⟩
    · rw [List.map_cons, List.map_cons, hsnd]
    · rw [LineLog.lines_cons, LineLog.lines_cons, hlines, hbytes, Utf8.bytes_append,
        Utf8.bytes_cons]
      rfl

section Python

variable {ms : List (List Char × Checkpoint)} (hms : ∀ m ∈ ms, LineText m.1 m.2)

include hms

theorem carriageReturn_notMem_lines : '\r' ∉ LineLog.lines '\n' ms := by
  intro hmem
  obtain ⟨m, hm, hmem⟩ := List.mem_flatMap.1 hmem
  rcases List.mem_append.1 hmem with hmem | hmem
  · exact (hms m hm).notMem (by decide) hmem
  · exact absurd (List.mem_singleton.1 hmem) (by decide)

theorem lineText_python : ∀ m ∈ ms, blankLine m.1 = false ∧ parseLine m.1 = some m.2 := by
  intro m hm
  obtain ⟨sdk, stored, hcp, htext⟩ := hms m hm
  obtain ⟨rest, hrest⟩ := sdk.exists_lineText m.2
  rw [htext, parseLine, jsonLoads_lineText, Option.bind_some, fromDict_members, hrest]
  exact ⟨brace_notSpace rest (by decide), rfl⟩

/-- What Python makes of a file of whole characters. -/
theorem loadCheckpoints_lines {last : List Char} (hnewline : '\n' ∉ last) (hreturn : '\r' ∉ last) :
    loadCheckpoints (bytes (LineLog.lines '\n' ms ++ last))
      = loadLines blankLine isJson parseLine (ms.map Prod.fst) last := by
  have htext : '\r' ∉ LineLog.lines '\n' ms ++ last := by
    rw [List.mem_append, not_or]
    exact ⟨carriageReturn_notMem_lines hms, hreturn⟩
  unfold loadCheckpoints
  rw [Utf8.decode_bytes]
  dsimp only
  rw [universalNewlines_eq htext,
    LineLog.splitOn_lines (fun m hm => (hms m hm).notMem (by decide)) hnewline,
    List.dropLast_concat, List.getLastD_concat]

end Python

/-- **Python reads the file back exactly when no character was cut.** -/
theorem loads_python_iff {s : Published} (h : LineLog.Shape IsLine newline s.file s.written) :
    Loads .python s ↔ WholeCharacters s.file := by
  constructor
  · intro hload
    cases hdec : Utf8.decode s.file with
    | none =>
      rw [Loads, Sdk.load, loadCheckpoints, hdec] at hload
      simp at hload
    | some text => exact ⟨text, Utf8.bytes_of_decode hdec⟩
  · rintro ⟨text, hfile⟩
    obtain ⟨file, written⟩ := s
    obtain ⟨ls, tail, rest, hls, htail, hshape, hwritten⟩ := h
    obtain ⟨ms, hms, hsnd, hlines⟩ := exists_lineTexts hls
    dsimp only at hshape hwritten hfile
    subst hwritten
    rw [Loads, Sdk.load]
    dsimp only
    cases htail with
    | empty =>
      left
      have hbytes : file = bytes (LineLog.lines '\n' ms ++ []) := by
        rw [hshape, hlines, List.append_nil, List.append_nil]
      rw [hbytes, loadCheckpoints_lines hms (by simp) (by simp), hsnd, List.append_nil]
      exact loadLines_blank (lineText_python hms) rfl
    | @whole _ cp ht =>
      left
      obtain ⟨line, htext, rfl⟩ := ht
      have hbytes : file = bytes (LineLog.lines '\n' ms ++ line) := by
        rw [hshape, hlines, Utf8.bytes_append]
      rw [hbytes, loadCheckpoints_lines hms (htext.notMem (by decide))
        (htext.notMem (by decide)), hsnd]
      have hone : ∀ m ∈ [(line, cp)], LineText m.1 m.2 := by simpa using htext
      obtain ⟨hblank, hparse⟩ := lineText_python hone _ List.mem_cons_self
      obtain ⟨sdk, stored, rfl, rfl⟩ := htext
      exact loadLines_last (lineText_python hms) hblank
        (by rw [isJson, jsonLoads_lineText]; rfl) hparse
    | cut ht hab ha hb =>
      right
      obtain ⟨_, hline, rfl⟩ := ht
      obtain ⟨sdk, stored, rfl, rfl⟩ := hline
      obtain ⟨pre, post, junk, htext, hpost, rfl, rfl | ⟨c, hcut⟩⟩ := sdk.exists_cut hab ha hb
      · have hbytes : file = bytes (LineLog.lines '\n' ms ++ '\x7b' :: pre) := by
          rw [hshape, hlines, List.append_nil, Utf8.bytes_append]
        have hctrl : ∀ {d : Char}, d < ' ' → d ∉ '\x7b' :: pre := by
          intro d hd hmem
          refine sdk.notMem_lineText stored.toCheckpoint hd ?_
          rw [htext]
          exact List.mem_append_left _ hmem
        rw [hbytes, loadCheckpoints_lines hms (hctrl (by decide)) (hctrl (by decide)), hsnd,
          List.append_nil]
        refine loadLines_unfinished (lineText_python hms) (brace_notSpace _ (by decide)) ?_
        rw [isJson, sdk.jsonLoads_cut htext (List.cons_ne_nil _ _) hpost]
        rfl
      · -- such a file is no text
        have hnone := Utf8.decode_cut hcut (LineLog.lines '\n' ms ++ '\x7b' :: pre)
        rw [Utf8.bytes_append, List.append_assoc, ← hlines, ← hshape, hfile,
          Utf8.decode_bytes] at hnone
        exact absurd hnone (by simp)

/-- **Either SDK reads a checkpoint file back at any moment, if and only if no character is cut at
    its end.** -/
theorem loads_published_iff (ps : List Publish) :
    (∀ sdk, Loads sdk (published ps)) ↔ WholeCharacters (published ps).file := by
  rw [← loads_python_iff (published_shape ps)]
  constructor
  · exact fun h => h .python
  · intro h sdk
    cases sdk with
    | python => exact h
    | go => exact loads_go (published_shape ps)

/-- A node whose name is one character, of two bytes where Go writes it. -/
def cafe : StoredCheckpoint := ⟨⟨"é", 1, "", ""⟩, by decide⟩

/-- Go's append is cut off inside the name, and Python cannot load the file. -/
theorem not_loads_published_cut :
    loadCheckpoints (published [⟨.go, [cafe], 20⟩]).file = .failed .unicodeDecode
      ∧ (published [⟨.go, [cafe], 20⟩]).written = []
      ∧ Go.loadCheckpoints (published [⟨.go, [cafe], 20⟩]).file = .unfinishedLastLine [] := by
  decide +kernel

/-- Python's append is cut off between two characters. -/
theorem loads_published_twice :
    (published [⟨.go, [cafe], 100⟩, ⟨.python, [cafe], 10⟩]).written = [cafe.toCheckpoint]
      ∧ ∀ sdk, Loads sdk (published [⟨.go, [cafe], 100⟩, ⟨.python, [cafe], 10⟩]) := by
  refine ⟨by decide +kernel, (loads_published_iff _).2
    ⟨("\x7b\"source_node_id\":\"é\",\"monotonic_seq\":1,\"hash\":\"\",\"anchored_at\":\"\"\x7d\n"
      ++ "\x7b\"anchored").toList, ?_⟩⟩
  decide +kernel

end Fasten
