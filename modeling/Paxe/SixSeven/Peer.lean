import Paxe.SixSeven.KvSound

/-!
# The node-to-node payload (`src/bin/six-seven-server/peer.rs`)

A message is one line of text: its kind, a correlation id, and an operation or
a reply. Reading back what was written gives the same message, whatever the
value holds, and a message about a small value is small.
-/

namespace Paxe.SixSeven
open Str

inductive Peer where
  | request (corr : UInt64) (op : Op)
  | response (corr : UInt64) (reply : Reply)
  deriving DecidableEq, Repr

/-- `t.split_once(' ').unwrap_or((t, ""))`. -/
def splitSpace (t : Text) : Text × Text := (splitOnce (· == ' ') t).getD (t, [])

namespace Peer

def parseKey (debug : Text → Text) (s : Text) : Except Text UInt64 :=
  match parseU64 (trim s) with
  | some k => .ok k
  | none => .error ("key must be a u64, got ".toList ++ debug s)

def encodeOp : Op → Text
  | .get k => "GET ".toList ++ showU64 k
  | .rm k => "RM ".toList ++ showU64 k
  | .put k v => "PUT ".toList ++ showU64 k ++ " ".toList ++ v

def encodeReply : Reply → Text
  | .value v => "VAL ".toList ++ v
  | .ok => "OK".toList
  | .nil => "NIL".toList
  | .err e => "ERR ".toList ++ e

def encode : Peer → Text
  | request corr op => "REQ ".toList ++ showU64 corr ++ " ".toList ++ encodeOp op
  | response corr reply => "RSP ".toList ++ showU64 corr ++ " ".toList ++ encodeReply reply

def decodeOp (debug : Text → Text) (rest : Text) : Except Text Op :=
  let (verb, tail) := splitSpace rest
  let verb := toAsciiUppercase verb
  if verb = "GET".toList then (parseKey debug tail).map .get
  else if verb = "RM".toList then (parseKey debug tail).map .rm
  else if verb = "PUT".toList then
    let (key, value) := splitSpace tail
    (parseKey debug key).map (.put · value)
  else .error ("unknown verb ".toList ++ debug verb ++ " in a peer request".toList)

def decodeReply (debug : Text → Text) (rest : Text) : Except Text Reply :=
  let (tag, body) := splitSpace rest
  if tag = "VAL".toList then .ok (.value body)
  else if tag = "OK".toList then .ok .ok
  else if tag = "NIL".toList then .ok .nil
  else if tag = "ERR".toList then .ok (.err body)
  else .error ("unknown response tag ".toList ++ debug tag)

/-- The three parts of `text.splitn(3, ' ')`: the last one keeps its spaces. -/
def decode (debug : Text → Text) (text : Text) : Except Text Peer :=
  match splitOnce (· == ' ') text with
  | none => .error "missing correlation id".toList
  | some (kind, tail) =>
    let (corr, rest) := splitSpace tail
    match parseU64 corr with
    | none => .error "correlation id must be a u64".toList
    | some corr =>
      if kind = "REQ".toList then (decodeOp debug rest).map (request corr)
      else if kind = "RSP".toList then (decodeReply debug rest).map (response corr)
      else .error ("unknown peer message kind ".toList ++ debug kind)

/-! ## What is written -/

section
variable (corr k : UInt64) (v : Text) (op : Op) (reply : Reply)

theorem encode_request :
    encode (.request corr op) = "REQ ".toList ++ showU64 corr ++ " ".toList ++ encodeOp op := rfl

theorem encode_response :
    encode (.response corr reply) = "RSP ".toList ++ showU64 corr ++ " ".toList ++ encodeReply reply := rfl

theorem encodeOp_get : encodeOp (.get k) = "GET ".toList ++ showU64 k := rfl

theorem encodeOp_rm : encodeOp (.rm k) = "RM ".toList ++ showU64 k := rfl

theorem encodeOp_put : encodeOp (.put k v) = "PUT ".toList ++ showU64 k ++ " ".toList ++ v := rfl

theorem encodeReply_value : encodeReply (.value v) = "VAL ".toList ++ v := rfl

theorem encodeReply_ok : encodeReply .ok = "OK".toList := rfl

theorem encodeReply_nil : encodeReply .nil = "NIL".toList := rfl

theorem encodeReply_err : encodeReply (.err v) = "ERR ".toList ++ v := rfl

end

end Peer

/-! ## Reading back -/

theorem splitSpace_append {a : Text} (ha : ∀ c ∈ a, (c == ' ') = false) (b : Text) :
    splitSpace (a ++ ' ' :: b) = (a, b) := by
  rw [splitSpace, splitOnce_append ha rfl]
  rfl

theorem showU64_no_space (k : UInt64) : ∀ c ∈ showU64 k, (c == ' ') = false := by
  intro c hc
  have := isDigit_not_whitespace (showU64_digit hc)
  apply beq_false_of_ne
  rintro rfl
  cases this

namespace Peer

@[simp] theorem parseKey_showU64 (debug : Text → Text) (k : UInt64) : parseKey debug (showU64 k) = .ok k := by
  rw [parseKey, trim_eq fun c hc => isDigit_not_whitespace (showU64_digit hc), parseU64_showU64]

theorem decodeOp_encodeOp (debug : Text → Text) (op : Op) : decodeOp debug (encodeOp op) = .ok op := by
  cases op with
  | get k =>
    have hs : splitSpace (encodeOp (.get k)) = ("GET".toList, showU64 k) :=
      splitSpace_append (a := "GET".toList) (by simp) _
    rw [decodeOp, hs]
    simp [toAsciiUppercase, Except.map]
  | rm k =>
    have hs : splitSpace (encodeOp (.rm k)) = ("RM".toList, showU64 k) :=
      splitSpace_append (a := "RM".toList) (by simp) _
    rw [decodeOp, hs]
    simp [toAsciiUppercase, Except.map]
  | put k v =>
    have hs : splitSpace (encodeOp (.put k v)) = ("PUT".toList, showU64 k ++ ' ' :: v) := by
      have hput : encodeOp (.put k v) = "PUT".toList ++ ' ' :: (showU64 k ++ ' ' :: v) := by
        simp [encodeOp_put]
      rw [hput]
      exact splitSpace_append (by simp) _
    have hv : splitSpace (showU64 k ++ ' ' :: v) = (showU64 k, v) := splitSpace_append (showU64_no_space k) v
    rw [decodeOp, hs]
    simp [toAsciiUppercase, hv, Except.map]

theorem decodeReply_encodeReply (debug : Text → Text) (reply : Reply) :
    decodeReply debug (encodeReply reply) = .ok reply := by
  cases reply with
  | value v =>
    have hs : splitSpace (encodeReply (.value v)) = ("VAL".toList, v) :=
      splitSpace_append (a := "VAL".toList) (by simp) v
    rw [decodeReply, hs]
    rfl
  | ok => rfl
  | nil => rfl
  | err e =>
    have hs : splitSpace (encodeReply (.err e)) = ("ERR".toList, e) :=
      splitSpace_append (a := "ERR".toList) (by simp) e
    rw [decodeReply, hs]
    rfl

/-- A message survives the hop byte for byte: values may be empty, and may hold
spaces and line breaks. -/
theorem decode_encode (debug : Text → Text) (m : Peer) : decode debug (encode m) = .ok m := by
  cases m with
  | request corr op =>
    have hk : splitOnce (· == ' ') (encode (.request corr op)) =
        some ("REQ".toList, showU64 corr ++ ' ' :: encodeOp op) := by
      have hreq : encode (.request corr op) = "REQ".toList ++ ' ' :: (showU64 corr ++ ' ' :: encodeOp op) := by
        simp [encode_request]
      rw [hreq]
      exact splitOnce_append (by simp) rfl _
    have hc := splitSpace_append (showU64_no_space corr) (encodeOp op)
    simp only [decode, hk, hc, parseU64_showU64, decodeOp_encodeOp]
    rfl
  | response corr reply =>
    have hk : splitOnce (· == ' ') (encode (.response corr reply)) =
        some ("RSP".toList, showU64 corr ++ ' ' :: encodeReply reply) := by
      have hrsp : encode (.response corr reply) =
          "RSP".toList ++ ' ' :: (showU64 corr ++ ' ' :: encodeReply reply) := by
        simp [encode_response]
      rw [hrsp]
      exact splitOnce_append (by simp) rfl _
    have hc := splitSpace_append (showU64_no_space corr) (encodeReply reply)
    simp only [decode, hk, hc, parseU64_showU64, decodeReply_encodeReply]
    rfl

/-- Any message comes back as it was, so no two are written alike, and no value
reads as another kind of reply; other texts are refused. -/
theorem peer_codec (debug : Text → Text) :
    (∀ m, decode debug (encode m) = .ok m) ∧ Function.Injective encode ∧
    (∀ (corr corr' : UInt64) (reply reply' : Reply),
      encode (.response corr reply) = encode (.response corr' reply') → corr = corr' ∧ reply = reply') ∧
    (∀ text, (∃ m, decode debug text = .ok m) ∨ ∃ e, decode debug text = .error e) := by
  have hinj : Function.Injective encode := by
    intro m m' h
    have := decode_encode debug m
    rw [h, decode_encode] at this
    cases this
    rfl
  refine ⟨decode_encode debug, hinj, ?_, ?_⟩
  · intro corr corr' reply reply' h
    cases hinj h
    exact ⟨rfl, rfl⟩
  · intro text
    cases decode debug text with
    | ok m => exact Or.inl ⟨m, rfl⟩
    | error e => exact Or.inr ⟨e, rfl⟩

end Peer

/-! ## Sizes -/

theorem Peer.encode_request_len (corr : UInt64) (op : Op) : len (encode (.request corr op)) ≤ 50 + op.textLen := by
  have hc := showU64_len_le corr
  have hl : len "REQ ".toList = 4 ∧ len " ".toList = 1 ∧ len "GET ".toList = 4 ∧ len "RM ".toList = 3 ∧
      len "PUT ".toList = 4 := by decide
  cases op with
  | get k =>
    have hk := showU64_len_le k
    simp only [encode_request, encodeOp_get, len_append, Op.textLen, hl]
    omega
  | rm k =>
    have hk := showU64_len_le k
    simp only [encode_request, encodeOp_rm, len_append, Op.textLen, hl]
    omega
  | put k v =>
    have hk := showU64_len_le k
    simp only [encode_request, encodeOp_put, len_append, Op.textLen, hl]
    omega

theorem Peer.encode_response_len (corr : UInt64) (reply : Reply) :
    len (encode (.response corr reply)) ≤ 50 + reply.textLen := by
  have hc := showU64_len_le corr
  have hl : len "RSP ".toList = 4 ∧ len " ".toList = 1 ∧ len "VAL ".toList = 4 ∧ len "OK".toList = 2 ∧
      len "NIL".toList = 3 ∧ len "ERR ".toList = 4 := by decide
  cases reply with
  | value v =>
    simp only [encode_response, encodeReply_value, len_append, Reply.textLen, hl]
    omega
  | ok =>
    simp only [encode_response, encodeReply_ok, len_append, Reply.textLen, hl]
    omega
  | nil =>
    simp only [encode_response, encodeReply_nil, len_append, Reply.textLen, hl]
    omega
  | err e =>
    simp only [encode_response, encodeReply_err, len_append, Reply.textLen, hl]
    omega

end Paxe.SixSeven
