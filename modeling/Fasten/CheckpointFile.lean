import Fasten.GoJson.Python
import Fasten.GoText
import Fasten.Lib.LineLog
import Fasten.Verify

set_option autoImplicit false

/-! # Checkpoint files

`FileCheckpointSink` and `load_checkpoints` of both SDKs (`python/fasten/checkpoints.py`,
`go/checkpoints.go`). A file is its bytes. A publish appends one line of JSON for each checkpoint,
after it has ended or dropped the last line; a crash cuts the append off after any byte. -/

namespace Fasten

open JsonText Utf8Order

/-- A checkpoint of a stored row: the stores keep `monotonic_seq` in a signed 64-bit column. -/
structure StoredCheckpoint extends Checkpoint where
  int64 : -(2 ^ 63) ≤ monotonicSeq ∧ monotonicSeq < 2 ^ 63

/-! ## Lines -/

/-- The fields of the dataclass and of the Go struct, in their order. -/
def Checkpoint.toDict (cp : Checkpoint) : Json :=
  .obj
    [("source_node_id", .str cp.sourceNodeId), ("monotonic_seq", .int cp.monotonicSeq),
      ("hash", .str cp.hash), ("anchored_at", .str cp.anchoredAt)]

inductive Sdk where
  | python
  | go
  deriving DecidableEq

/-- `json.dumps(cp.to_dict(), sort_keys=True)`, or what `json.Encoder` writes before the newline. -/
def Sdk.lineText : Sdk → Checkpoint → List Char
  | .python, cp => dumps spacedAscii cp.toDict.sortKeys
  | .go, cp => write (textWriter (Go.goEscape true) []) cp.toDict.tree

def newline : UInt8 := 10

/-! ## Parsing a line -/

/-- `json.loads` of bytes: a line starts with a brace, so it is taken as UTF-8. -/
def loadsBytes (b : List UInt8) : Option Json := (Utf8.decode b).bind jsonLoads

def checkpointFields : List String := ["source_node_id", "monotonic_seq", "hash", "anchored_at"]

/-- `Checkpoint.from_dict`. -/
def Checkpoint.fromDict (d : Json) : Option Checkpoint :=
  match d with
  | .obj members =>
    if (∀ k ∈ Dict.keys members, k ∈ checkpointFields)
        ∧ ∀ k ∈ checkpointFields, k ∈ Dict.keys members then
      match Dict.get? members "source_node_id", Dict.get? members "monotonic_seq",
        Dict.get? members "hash", Dict.get? members "anchored_at" with
      | some (.str node), some (.int seq), some (.str h), some (.str anchored) =>
        some ⟨node, seq, h, anchored⟩
      | _, _, _, _ => none
    else none
  | _ => none

namespace Go

/-- The JSON value of the bytes, if they are one. -/
def validJSON (b : List UInt8) : Option (JsonTree Numeral String) :=
  (read (textReader readChar) (Utf8.runes b)).filter
    (fun t => t.nums.all (fun n => (parseNumber n.text).isSome))

/-- `json.Valid`. -/
def jsonValid (b : List UInt8) : Bool := (validJSON b).isSome

/-- `json.Unmarshal` into a `string`. -/
def unmarshalString : JsonTree Numeral String → Option String
  | .str s => some s
  | _ => none

/-- `json.Unmarshal` into an `int64`: an integer literal in range. -/
def unmarshalInt64 : JsonTree Numeral String → Option Int
  | .num t =>
    match Json.ofNumeral t with
    | some (.int n) => if -(2 ^ 63) ≤ n ∧ n < 2 ^ 63 then some n else none
    | _ => none
  | _ => none

/-- `parseCheckpoint`. A `null` is neither a string nor a number here. -/
def parseCheckpoint (line : List UInt8) : Option Checkpoint :=
  match validJSON line with
  | some (.obj members) =>
    let fields := Dict.update [] members
    if fields.length = checkpointFields.length then do
      let node ← (Dict.get? fields "source_node_id").bind unmarshalString
      let seq ← (Dict.get? fields "monotonic_seq").bind unmarshalInt64
      let h ← (Dict.get? fields "hash").bind unmarshalString
      let anchored ← (Dict.get? fields "anchored_at").bind unmarshalString
      return ⟨node, seq, h, anchored⟩
    else none
  | _ => none

end Go

/-! ## Appending -/

/-- `rfind`, or `bytes.LastIndexByte`. -/
def rfind (b : UInt8) (chunk : List UInt8) : Option Nat :=
  (chunk.reverse.idxOf? b).map (fun i => chunk.length - 1 - i)

/-- The loop that looks for the start of the last line, from `start` backwards in chunks of
    `size`. -/
def lastLineStart (size : Nat) (file : List UInt8) : Nat → Nat → Nat
  | 0, start => start
  | fuel + 1, start =>
    if start = 0 then 0
    else
      let n := min size start
      match rfind newline ((file.drop (start - n)).take n) with
      | some i => start - n + i + 1
      | none => lastLineStart size file fuel (start - n)

/-- `_end_last_line`: what it leaves of the file, and what is to be written before the lines. -/
def endLastLine (valid : List UInt8 → Bool) (file : List UInt8) : List UInt8 × List UInt8 :=
  let start := lastLineStart 4096 file file.length file.length
  if start = file.length then (file, [])
  else if valid (file.drop start) then (file, [newline])
  else (file.take start, [])

/-- Whether the last line is valid JSON. -/
def Sdk.validLine : Sdk → List UInt8 → Bool
  | .python, b => (loadsBytes b).isSome
  | .go, b => Go.jsonValid b

/-- One call of `publish`, cut off after `cut` bytes of what it appends. -/
structure Publish where
  sdk : Sdk
  checkpoints : List StoredCheckpoint
  cut : Nat

/-- The encoded lines, without their newlines. -/
def Publish.texts (p : Publish) : List (List UInt8 × Checkpoint) :=
  p.checkpoints.map (fun cp => (bytes (p.sdk.lineText cp.toCheckpoint), cp.toCheckpoint))

/-- `FileCheckpointSink.publish`. -/
def publish (file : List UInt8) (p : Publish) : List UInt8 :=
  if p.checkpoints = [] then file
  else
    let (kept, ending) := endLastLine p.sdk.validLine file
    kept ++ (ending ++ LineLog.lines newline p.texts).take p.cut

/-! ## Loading -/

inductive LoadError where
  | unicodeDecode
  | notACheckpoint
  deriving DecidableEq

/-- What a load returns: the checkpoints, those before an unfinished last line with the report of
    it, or another error. -/
inductive Loaded where
  | loaded (checkpoints : List Checkpoint)
  | unfinishedLastLine (checkpoints : List Checkpoint)
  | failed (err : LoadError)
  deriving DecidableEq

/-- The body of both loads: `last` is what follows the last newline. -/
def loadLines {L : Type} (blank valid : L → Bool) (parse : L → Option Checkpoint)
    (lines : List L) (last : L) : Loaded :=
  match (lines.filter (fun line => !blank line)).mapM parse with
  | none => .failed .notACheckpoint
  | some out =>
    if blank last then .loaded out
    else if !valid last then .unfinishedLastLine out
    else
      match parse last with
      | none => .failed .notACheckpoint
      | some cp => .loaded (out ++ [cp])

/-- A text file opened for reading: every line break is a newline. -/
def universalNewlines : List Char → List Char
  | [] => []
  | '\r' :: '\n' :: rest => '\n' :: universalNewlines rest
  | '\r' :: rest => '\n' :: universalNewlines rest
  | c :: rest => c :: universalNewlines rest

/-- `not line.strip()`. -/
def blankLine (line : List Char) : Bool := line.all isPySpace

def isJson (line : List Char) : Bool := (jsonLoads line).isSome

/-- `Checkpoint.from_dict(json.loads(line))`. -/
def parseLine (line : List Char) : Option Checkpoint := (jsonLoads line).bind Checkpoint.fromDict

/-- `load_checkpoints`. -/
def loadCheckpoints (file : List UInt8) : Loaded :=
  match Utf8.decode file with
  | none => .failed .unicodeDecode
  | some text =>
    let lines := (universalNewlines text).splitOn '\n'
    loadLines blankLine isJson parseLine lines.dropLast (lines.getLastD [])

/-- `len(bytes.TrimSpace(line)) == 0`. -/
def Go.blankLine (line : List UInt8) : Bool := (Utf8.runes line).all isUnicodeSpace

/-- `LoadCheckpoints`. -/
def Go.loadCheckpoints (file : List UInt8) : Loaded :=
  let lines := file.splitOn newline
  loadLines Go.blankLine Go.jsonValid Go.parseCheckpoint lines.dropLast (lines.getLastD [])

def Sdk.load : Sdk → List UInt8 → Loaded
  | .python => loadCheckpoints
  | .go => Go.loadCheckpoints

/-! ## Runs -/

/-- The checkpoints whose JSON text a publish writes completely. -/
def Publish.complete (file : List UInt8) (p : Publish) : List Checkpoint :=
  LineLog.complete (p.cut - (endLastLine p.sdk.validLine file).2.length) p.texts

/-- A file, and the checkpoints whose JSON text was completely written to it. -/
structure Published where
  file : List UInt8
  written : List Checkpoint

def Published.step (s : Published) (p : Publish) : Published :=
  ⟨publish s.file p, s.written ++ p.complete s.file⟩

/-- The file after some publishes to a new one. -/
def published (ps : List Publish) : Published := ps.foldl Published.step ⟨[], []⟩

end Fasten
