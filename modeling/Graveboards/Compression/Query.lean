import Graveboards.Compression.Nesting
import Graveboards.Compression.RoundTrip
import Graveboards.Library.Base64

/-!
`compress_query` and `decompress_query`: a query in the URL is compressed with Brotli and
written as base64 without its padding, which the reader puts back from the length.
-/

namespace Graveboards.Compression

open Graveboards.Library Graveboards.Search

/-! What surrounds the two functions. -/

/-- The `brotli` package. -/
structure Brotli where
  compress : Bytes → Bytes
  /-- `none`: brotli.error. -/
  decompress : Bytes → Option Bytes
  /-- The TypeError about an argument of another type. -/
  refusal : String → String
  lossless : ∀ bytes, decompress (compress bytes) = some bytes

/-- How many containers the interpreter lets `json` open within one another. -/
structure Limits where
  dumps : Nat
  loads : Nat

/-- What a caller may pass. -/
inductive Argument where
  | bytes (bytes : Bytes)
  | dict (entries : List (PyStr × JsonValue))
  | str (s : PyStr)
  | other (typeName : String)

def Argument.typeName : Argument → String
  | .bytes _ => "bytes"
  | .dict _ => "dict"
  | .str _ => "str"
  | .other name => name

inductive Decompressed where
  | bytes (bytes : Bytes)
  | json (v : JsonValue)

inductive QueryError where
  | typeError (message : String)
  | valueError (message : String)
  | unicodeDecodeError
  | recursionError
  deriving DecidableEq

/-- A UnicodeDecodeError is a ValueError. -/
def QueryError.isValueError : QueryError → Bool
  | .valueError _ | .unicodeDecodeError => true
  | .typeError _ | .recursionError => false

def DumpError.raised : DumpError → QueryError
  | .tooManyDigits =>
      .valueError
        ("Exceeds the limit (4300 digits) for integer string conversion; " ++
          "use sys.set_int_max_str_digits() to increase the limit")
  | .recursion => .recursionError

/-! `compress_query`. -/

def encodeAscii (text : List Char) : PyStr := text.map .char

/-- `base64.urlsafe_b64encode(compressed).decode("ascii").rstrip("=")`. -/
def urlText (compressed : Bytes) : PyStr := encodeAscii (Base64.strip (Base64.encode compressed))

/-- `str.encode` of a text without surrogates. -/
def encodeUtf8 (text : List Char) : Bytes := text.flatMap String.utf8EncodeChar

variable (limits : Limits) (B : Brotli)

def compressQuery (q : Argument) (serialized : Bool) : Except QueryError PyStr :=
  match q, serialized with
  | .bytes bytes, true => .ok (urlText (B.compress bytes))
  | .dict entries, false =>
      match dumps limits.dumps (.object entries) with
      | .ok text => .ok (urlText (B.compress (encodeUtf8 text)))
      | .error e => .error e.raised
  | .dict _, true => .error (.typeError (B.refusal "dict"))
  | .bytes _, false => .error (.typeError "Object of type bytes is not JSON serializable")
  | q, _ => .error (.typeError ("q must be bytes or dict, got " ++ q.typeName))

/-! `decompress_query`. -/

/-- What its body raises; the first three are caught. -/
inductive Failure where
  | binasciiError
  | brotliError
  | jsonDecodeError
  | raised (e : QueryError)

def Failure.handled : Failure → QueryError
  | .binasciiError | .brotliError | .jsonDecodeError =>
      .valueError "Could not decompress query, ensure it's valid and complete"
  | .raised e => e

def LoadError.failure : LoadError → Failure
  | .decodeError => .jsonDecodeError
  | .tooManyDigits count =>
      .raised (.valueError
        ("Exceeds the limit (4300 digits) for integer string conversion: value has " ++
          toString count ++
          " digits; use sys.set_int_max_str_digits() to increase the limit"))
  | .recursion => .raised .recursionError

def asciiChar : CodePoint → Option Char
  | .char c => if c.toNat < 128 then some c else none
  | .surrogate _ => none

def padded (q : PyStr) : PyStr := q ++ List.replicate (q.length % 4) (.char Base64.pad)

/-- `base64.urlsafe_b64decode`. -/
def urlsafeB64decode (s : PyStr) : Except Failure Bytes :=
  match s.mapM asciiChar with
  | none => .error (.raised (.valueError "string argument should contain only ASCII characters"))
  | some text =>
      match Base64.decode text with
      | some bytes => .ok bytes
      | none => .error .binasciiError

def Brotli.tryDecompress (compressed : Bytes) : Except Failure Bytes :=
  match B.decompress compressed with
  | some bytes => .ok bytes
  | none => .error .brotliError

/-- `bytes.decode`: a text without surrogates. -/
def decodeUtf8 (bytes : Bytes) : Except Failure (List Char) :=
  match bytes.toByteArray.utf8Decode? with
  | some text => .ok text.toList
  | none => .error (.raised .unicodeDecodeError)

def loadText (text : List Char) : Except Failure JsonValue :=
  match loads limits.loads text with
  | .ok v => .ok v
  | .error e => .error e.failure

/-- The bytes that a query carries. -/
def carriedBytes (q : PyStr) : Except Failure Bytes := do
  let compressed ← urlsafeB64decode (padded q)
  B.tryDecompress compressed

/-- The text that a query carries. -/
def carriedText (q : PyStr) : Except Failure (List Char) := do
  let bytes ← carriedBytes B q
  decodeUtf8 bytes

def decompressQuery (q : Argument) (serialized : Bool) : Except QueryError Decompressed :=
  match q with
  | .str q =>
      Except.mapError Failure.handled <|
        if serialized then Decompressed.bytes <$> carriedBytes B q
        else do
          let text ← carriedText B q
          Decompressed.json <$> loadText limits text
  | q => .error (.typeError ("q must be str, got " ++ q.typeName))

/-! A query that has been written. -/

theorem mapM_asciiChar {text : List Char} (h : ∀ c ∈ text, c.toNat < 128) :
    (encodeAscii text).mapM asciiChar = some text := by
  induction text with
  | nil => rfl
  | cons c rest ih =>
      obtain ⟨hc, hrest⟩ := List.forall_mem_cons.mp h
      have hchar : asciiChar (.char c) = some c := if_pos hc
      have hmap : List.mapM asciiChar (rest.map .char) = some rest := ih hrest
      rw [encodeAscii, List.map_cons, List.mapM_cons, hchar, hmap]
      rfl

theorem padded_encodeAscii (text : List Char) :
    padded (encodeAscii text) =
      encodeAscii (text ++ List.replicate (text.length % 4) Base64.pad) := by
  simp only [padded, encodeAscii, List.length_map, List.map_append, List.map_replicate]

theorem urlsafeB64decode_urlText (compressed : Bytes) :
    urlsafeB64decode (padded (urlText compressed)) = .ok compressed := by
  have hascii : ∀ c ∈ Base64.unpadded compressed ++
      List.replicate ((Base64.unpadded compressed).length % 4) Base64.pad, c.toNat < 128 := by
    intro c hc
    rcases List.mem_append.mp hc with hc | hc
    · exact Base64.isAscii_of_mem_unpadded hc
    · obtain rfl := List.eq_of_mem_replicate hc
      decide
  rw [urlText, Base64.strip_encode, padded_encodeAscii, urlsafeB64decode, mapM_asciiChar hascii]
  simp only [Base64.read_unpadded]

theorem carriedBytes_urlText (bytes : Bytes) :
    carriedBytes B (urlText (B.compress bytes)) = .ok bytes := by
  rw [carriedBytes, urlsafeB64decode_urlText]
  change B.tryDecompress (B.compress bytes) = .ok bytes
  rw [Brotli.tryDecompress, B.lossless]

theorem decodeUtf8_encodeUtf8 (text : List Char) : decodeUtf8 (encodeUtf8 text) = .ok text := by
  have hroundtrip :
      (text.flatMap String.utf8EncodeChar).toByteArray.utf8Decode? = some text.toArray :=
    List.utf8Decode?_utf8Encode
  rw [decodeUtf8, encodeUtf8, hroundtrip]

theorem carriedText_urlText (text : List Char) :
    carriedText B (urlText (B.compress (encodeUtf8 text))) = .ok text := by
  rw [carriedText, carriedBytes_urlText]
  exact decodeUtf8_encodeUtf8 text

/-! A query that is refused. -/

variable {B}

theorem handled_of_carriedBytes {q : PyStr} {f : Failure} (h : carriedBytes B q = .error f) :
    f.handled.isValueError = true := by
  rw [carriedBytes] at h
  cases hdecode : urlsafeB64decode (padded q) with
  | error f' =>
      rw [hdecode] at h
      obtain rfl := Except.error.inj h
      rw [urlsafeB64decode] at hdecode
      split at hdecode
      · obtain rfl := Except.error.inj hdecode
        rfl
      · split at hdecode <;> cases hdecode
        rfl
  | ok compressed =>
      rw [hdecode] at h
      change B.tryDecompress compressed = .error f at h
      rw [Brotli.tryDecompress] at h
      split at h <;> cases h
      rfl

theorem handled_of_carriedText {q : PyStr} {f : Failure} (h : carriedText B q = .error f) :
    f.handled.isValueError = true := by
  rw [carriedText] at h
  cases hbytes : carriedBytes B q with
  | error f' =>
      rw [hbytes] at h
      obtain rfl := Except.error.inj h
      exact handled_of_carriedBytes hbytes
  | ok bytes =>
      rw [hbytes] at h
      change decodeUtf8 bytes = .error f at h
      rw [decodeUtf8] at h
      split at h <;> cases h
      rfl

variable {limits}

theorem handled_of_loadText {text : List Char} {f : Failure} (h : loadText limits text = .error f)
    (hnests : nestsWithin limits.loads text = true) : f.handled.isValueError = true := by
  rw [loadText] at h
  cases hloads : loads limits.loads text with
  | ok v =>
      rw [hloads] at h
      cases h
  | error e =>
      rw [hloads] at h
      obtain rfl := Except.error.inj h
      cases e with
      | decodeError | tooManyDigits count => rfl
      | recursion => exact absurd hloads (loads_ne_recursion hnests)

theorem mapError_eq_error {α : Type} {x : Except Failure α} {e : QueryError}
    (h : x.mapError Failure.handled = .error e) : ∃ f, x = .error f ∧ f.handled = e := by
  cases x with
  | error f => exact ⟨f, rfl, Except.error.inj h⟩
  | ok a => cases h

/-! Both functions. -/

variable (limits B)

theorem decompress_compress_bytes (bytes : Bytes) :
    ∃ q, compressQuery limits B (.bytes bytes) true = .ok q ∧
      decompressQuery limits B (.str q) true = .ok (.bytes bytes) := by
  refine ⟨_, rfl, ?_⟩
  rw [decompressQuery, if_pos rfl, carriedBytes_urlText]
  rfl

theorem decompress_compress_object {depth : Nat} {entries : List (PyStr × JsonValue)}
    (h : Portable depth (.object entries)) (hdumps : depth ≤ limits.dumps)
    (hloads : depth ≤ limits.loads) :
    ∃ q, compressQuery limits B (.dict entries) false = .ok q ∧
      decompressQuery limits B (.str q) false = .ok (.json (.object entries)) := by
  obtain ⟨text, htext, hread⟩ := loads_dumps h hdumps hloads
  have hload : loadText limits text = .ok (.object entries) := by rw [loadText, hread]
  refine ⟨urlText (B.compress (encodeUtf8 text)), ?_, ?_⟩
  · rw [compressQuery, htext]
  · rw [decompressQuery, if_neg Bool.false_ne_true, carriedText_urlText]
    change Except.mapError Failure.handled (Decompressed.json <$> loadText limits text) = _
    rw [hload]
    rfl

variable {limits B}

theorem isValueError_of_bytes {q : PyStr} {e : QueryError}
    (h : decompressQuery limits B (.str q) true = .error e) :
    e.isValueError = true := by
  rw [decompressQuery, if_pos rfl] at h
  obtain ⟨f, hf, rfl⟩ := mapError_eq_error h
  cases hbytes : carriedBytes B q with
  | ok bytes =>
      rw [hbytes] at hf
      cases hf
  | error f' =>
      rw [hbytes] at hf
      obtain rfl := Except.error.inj hf
      exact handled_of_carriedBytes hbytes

theorem isValueError_of_json {q : PyStr} {e : QueryError}
    (hnests : ∀ text, carriedText B q = .ok text → nestsWithin limits.loads text = true)
    (h : decompressQuery limits B (.str q) false = .error e) : e.isValueError = true := by
  rw [decompressQuery, if_neg Bool.false_ne_true] at h
  obtain ⟨f, hf, rfl⟩ := mapError_eq_error h
  cases htext : carriedText B q with
  | error f' =>
      rw [htext] at hf
      obtain rfl := Except.error.inj hf
      exact handled_of_carriedText htext
  | ok text =>
      rw [htext] at hf
      change Decompressed.json <$> loadText limits text = .error f at hf
      cases hload : loadText limits text with
      | ok v =>
          rw [hload] at hf
          cases hf
      | error f' =>
          rw [hload] at hf
          obtain rfl := Except.error.inj hf
          exact handled_of_loadText hload (hnests text htext)

/-- Brackets that nest too deeply end in an error that is not caught. -/
theorem decompress_brackets (limits : Limits) (B : Brotli) :
    decompressQuery limits B
    (.str (urlText (B.compress (encodeUtf8 (List.replicate (limits.loads + 1) '[')))))
      false = .error .recursionError := by
  have hload : loadText limits (List.replicate (limits.loads + 1) '[') =
      .error (.raised .recursionError) := by
    rw [loadText, loads_brackets]
    rfl
  rw [decompressQuery, if_neg Bool.false_ne_true, carriedText_urlText]
  change Except.mapError Failure.handled (Decompressed.json <$> loadText limits _) = _
  rw [hload]
  rfl

/-- Bytes are read back as they were, and so is a JSON object that `json` writes and reads as it
is; what is refused is refused with a ValueError, unless its JSON nests too deeply. -/
theorem queries_round_trip (limits : Limits) (B : Brotli) :
    (∀ bytes, ∃ q, compressQuery limits B (.bytes bytes) true = .ok q ∧
        decompressQuery limits B (.str q) true = .ok (.bytes bytes)) ∧
      (∀ depth entries, Portable depth (.object entries) → depth ≤ limits.dumps →
        depth ≤ limits.loads →
        ∃ q, compressQuery limits B (.dict entries) false = .ok q ∧
          decompressQuery limits B (.str q) false = .ok (.json (.object entries))) ∧
      (∀ q e, decompressQuery limits B (.str q) true = .error e → e.isValueError = true) ∧
      (∀ q e, (∀ text, carriedText B q = .ok text → nestsWithin limits.loads text = true) →
        decompressQuery limits B (.str q) false = .error e → e.isValueError = true) := by
  refine ⟨decompress_compress_bytes limits B, ?_, ?_, ?_⟩
  · exact fun _ _ h hdumps hloads => decompress_compress_object limits B h hdumps hloads
  · exact fun _ _ h => isValueError_of_bytes h
  · exact fun _ _ hnests h => isValueError_of_json hnests h

/-! A format of stored blocks. -/

/-- A short input is one block that is stored as it is, and no input is an empty last block. -/
def storedBlock : Bytes → Bytes
  | [] => [0x3B]
  | bytes =>
      let header := 0x80000B + (bytes.length - 1) * 128
      [UInt8.ofNat header, UInt8.ofNat (header / 256), UInt8.ofNat (header / 65536)] ++
      bytes ++ [0x03]

/-- What has not been written so is refused. -/
def storedBytes (compressed : Bytes) : Option Bytes :=
  let bytes := (compressed.drop 3).dropLast
  if storedBlock bytes = compressed then some bytes else none

theorem storedBytes_storedBlock (bytes : Bytes) : storedBytes (storedBlock bytes) = some bytes := by
  have hbytes : ((storedBlock bytes).drop 3).dropLast = bytes := by
    cases bytes with
    | nil => rfl
    | cons b rest => exact List.dropLast_concat
  rw [storedBytes, hbytes, if_pos rfl]

def storedBlocks : Brotli where
  compress := storedBlock
  decompress := storedBytes
  refusal typeName := "a bytes-like object is required, not '" ++ typeName ++ "'"
  lossless := storedBytes_storedBlock

def Limits.thousand : Limits := ⟨1000, 1000⟩

example : compressQuery .thousand storedBlocks (.bytes [0x61]) true =
    .ok (encodeAscii "CwCAYQM".toList) := rfl

/-- `{"a": 1}`. -/
def oneMember : List (PyStr × JsonValue) := [([.char 'a'], .int 1)]

theorem queries_round_trip_short :
    (∃ q, compressQuery .thousand storedBlocks (.bytes [0x61]) true = .ok q ∧
        decompressQuery .thousand storedBlocks (.str q) true = .ok (.bytes [0x61])) ∧
      (∃ q, compressQuery .thousand storedBlocks (.dict oneMember) false = .ok q ∧
        decompressQuery .thousand storedBlocks (.str q) false = .ok (.json (.object oneMember))) ∧
      (decompressQuery .thousand storedBlocks (.str [.char 'A']) true =
          .error (.valueError "Could not decompress query, ensure it's valid and complete") ∧
        (QueryError.valueError
          "Could not decompress query, ensure it's valid and complete").isValueError = true) ∧
      (∀ e, decompressQuery .thousand storedBlocks
        (.str (urlText (storedBlock (encodeUtf8 "[[".toList)))) false = .error e →
        e.isValueError = true) := by
  obtain ⟨hbytes, hobjects, hrefused, hjson⟩ := queries_round_trip .thousand storedBlocks
  have hA : decompressQuery .thousand storedBlocks (.str [.char 'A']) true =
      .error (.valueError "Could not decompress query, ensure it's valid and complete") := rfl
  have hportable : Portable 1 (.object oneMember) :=
    ⟨List.nodup_singleton _, List.isChain_singleton _,
      Nat.one_lt_pow (by decide) (by decide), trivial⟩
  refine ⟨hbytes [0x61], hobjects 1 oneMember hportable (by decide) (by decide),
    ⟨hA, hrefused _ _ hA⟩, fun e => hjson _ e ?_⟩
  intro text htext
  have hcarried := carriedText_urlText storedBlocks "[[".toList
  obtain rfl := Except.ok.inj (htext.symm.trans hcarried)
  decide +kernel

/-- An object with an integer of 4301 digits is not written. -/
theorem queries_not_round_trip :
    ¬ ((∀ bytes, ∃ q, compressQuery .thousand storedBlocks (.bytes bytes) true = .ok q ∧
          decompressQuery .thousand storedBlocks (.str q) true = .ok (.bytes bytes)) ∧
        (∀ entries : List (PyStr × JsonValue), (entries.map Prod.fst).Nodup →
          ∃ q, compressQuery .thousand storedBlocks (.dict entries) false = .ok q ∧
            decompressQuery .thousand storedBlocks (.str q) false = .ok (.json (.object entries))) ∧
        (∀ q serialized e, decompressQuery .thousand storedBlocks (.str q) serialized = .error e →
          e.isValueError = true)) := by
  rintro ⟨-, hobjects, -⟩
  have hlong : Numeral.maxDigits < (digitsOf (10 ^ Numeral.maxDigits)).length := by
    rw [← Nat.not_le, length_digitsOf_le_iff (by decide)]
    exact Nat.lt_irrefl _
  have hdump : dumpInt ((10 ^ Numeral.maxDigits : Nat) : Int) = .error .tooManyDigits :=
    if_pos hlong
  obtain ⟨q, hcompress, -⟩ :=
    hobjects [([.char 'a'], .int ((10 ^ Numeral.maxDigits : Nat) : Int))] (List.nodup_singleton _)
  have hrefused : dumps Limits.thousand.dumps
      (.object [([.char 'a'], .int ((10 ^ Numeral.maxDigits : Nat) : Int))]) =
      .error .tooManyDigits := by
    change (dumpsEntries 999 [([.char 'a'], .int ((10 ^ Numeral.maxDigits : Nat) : Int))] >>= _) = _
    rw [dumpsEntries, dumps, hdump]
    rfl
  rw [compressQuery, hrefused] at hcompress
  cases hcompress

end Graveboards.Compression
