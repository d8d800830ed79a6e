import BbMonitor.Lib.DnsNames
import BbMonitor.Lib.Traced
import BbMonitor.Strings

/-!
# The answers to SRV queries

`ares_srv_callback` gets the message that a DNS server has sent, walks over its questions and
reads its answers, and posts one callback with an error code and the records.

The buffer is memory, of which the first `alen` bytes are the message: what is read behind
them is whatever stands there.  Each read of the functions is recorded, with its index, and
so is each cursor that is given to `ares_expand_name`.  That function is a parameter; it
returns a name with its encoded length, or an error.
-/

namespace BbMonitor.ServiceResolver

/-- A status of c-ares that is not `ARES_SUCCESS`. -/
abbrev AresError := { status : ℤ // status ≠ 0 }

def aresSuccess : ℤ := 0

/-- `ares_expand_name` for a buffer, its length and a cursor. -/
abbrev ExpandName := (ℕ → UInt8) → ℕ → ℕ → Except AresError (Bytes × ℕ)

inductive Access where
  -- A byte of the buffer is read.
  | byte (index : ℕ)
  -- A cursor is given to `ares_expand_name`.
  | name (cursor : ℕ)
deriving DecidableEq, Repr

structure SrvRecord where
  prio : UInt16
  weight : UInt16
  fqdn : Bytes
  port : UInt16
deriving DecidableEq, Repr

/-- A callback in the queue of the service. -/
abbrev Posted := ℤ × List SrvRecord

def typeSrv : UInt16 := 33

/-- `HFIXEDSZ`. -/
def headerSize : ℕ := 12

/-- `QFIXEDSZ`. -/
def questionSize : ℕ := 4

/-- `RRFIXEDSZ`. -/
def recordSize : ℕ := 10

variable (expandName : ExpandName) (abuf : ℕ → UInt8) (alen : ℕ)

/-! ## The macros of `ares_dns.h` -/

def byteAt (p : ℕ) : Traced Access UInt8 := .access (.byte p) (abuf p)

/-- `DNS__16BIT`. -/
def dns16Bit (p : ℕ) : Traced Access UInt16 := do
  let high ← byteAt abuf p
  let low ← byteAt abuf (p + 1)
  pure (high.toUInt16 <<< 8 ||| low.toUInt16)

/-- `DNS__32BIT`. -/
def dns32Bit (p : ℕ) : Traced Access UInt32 := do
  let high ← dns16Bit abuf p
  let low ← dns16Bit abuf (p + 2)
  pure (high.toUInt32 <<< 16 ||| low.toUInt32)

/-- Some bits of a byte, as the macros for the flags of the header take them. -/
def bitsAt (p : ℕ) (shift mask : UInt8) : Traced Access UInt8 := do
  let b ← byteAt abuf p
  pure (b >>> shift &&& mask)

def aresExpandName (cursor : ℕ) : Traced Access (Except AresError (Bytes × ℕ)) :=
  .access (.name cursor) (expandName abuf alen cursor)

/-! ## The source -/

/-- The cursor behind the question, and its name; `none` for `NULL`. -/
def parseQuestion (cursor : ℕ) : Traced Access (Option (ℕ × Bytes)) := do
  match ← aresExpandName expandName abuf alen cursor with
  | .error _ => pure none
  | .ok (qname, len) =>
      let cursor := cursor + len
      if cursor + questionSize > alen then pure none
      else pure (some (cursor + questionSize, qname))

/-- The loop over the questions: the cursor behind them. -/
def parseQuestions : ℕ → ℕ → Traced Access (Option ℕ)
  | 0, cursor => pure (some cursor)
  | n + 1, cursor => do
      match ← parseQuestion expandName abuf alen cursor with
      | none => pure none
      | some (cursor, _) => parseQuestions n cursor

/-- The loop over the answers, from the records that were found before: the error code and the
records that are posted. -/
def parseAnswers : ℕ → ℕ → List SrvRecord → Traced Access Posted
  | 0, _, v => pure (0, v)
  | n + 1, cursor, v => do
      match ← aresExpandName expandName abuf alen cursor with
      | .error status => pure (status, v)
      | .ok (_, len) =>
          let cursor := cursor + len
          if cursor + recordSize > alen then pure (-1, v)
          else
            let type ← dns16Bit abuf cursor
            let _dnsclass ← dns16Bit abuf (cursor + 2)
            let _ttl ← dns32Bit abuf (cursor + 4)
            let dlen ← dns16Bit abuf (cursor + 8)
            let cursor := cursor + recordSize
            if cursor + dlen.toNat > alen then pure (-1, v)
            else if type ≠ typeSrv then pure (-1, v)
            else
              let prio ← dns16Bit abuf cursor
              let weight ← dns16Bit abuf (cursor + 2)
              let port ← dns16Bit abuf (cursor + 4)
              match ← aresExpandName expandName abuf alen (cursor + 6) with
              | .error status => pure (status, v)
              | .ok (fqdn, _) =>
                  parseAnswers n (cursor + dlen.toNat) (v ++ [{ prio, weight, fqdn, port }])

/-- `do_cb`. -/
def doCb (posted : List Posted) (ec : ℤ) (v : List SrvRecord) : List Posted :=
  posted ++ [(ec, v)]

/-- The callbacks that are posted afterwards. -/
def aresSrvCallback (status : ℤ) (posted : List Posted) : Traced Access (List Posted) := do
  if status ≠ aresSuccess then pure (doCb posted status [])
  else
    let _id ← dns16Bit abuf 0
    let _qr ← bitsAt abuf 2 7 0x1
    let _opcode ← bitsAt abuf 2 3 0xf
    let _aa ← bitsAt abuf 2 2 0x1
    let _tc ← bitsAt abuf 2 1 0x1
    let _rd ← bitsAt abuf 2 0 0x1
    let _ra ← bitsAt abuf 3 7 0x1
    let _rcode ← bitsAt abuf 3 0 0xf
    let qdcount ← dns16Bit abuf 4
    let ancount ← dns16Bit abuf 6
    let _nscount ← dns16Bit abuf 8
    let _arcount ← dns16Bit abuf 10
    match ← parseQuestions expandName abuf alen qdcount.toNat headerSize with
    | none => pure (doCb posted status [])
    | some cursor =>
        let (ec, v) ← parseAnswers expandName abuf alen ancount.toNat cursor []
        pure (doCb posted ec v)

/-! ## The message -/

/-- Two bytes as a number. -/
def word (p : ℕ) : UInt16 := (abuf p).toUInt16 <<< 8 ||| (abuf (p + 1)).toUInt16

def questionCount : ℕ := (word abuf 4).toNat

def answerCount : ℕ := (word abuf 6).toNat

theorem dns16Bit_value (p : ℕ) : (dns16Bit abuf p).value = word abuf p := rfl

/-- The place behind some questions, if they all parse: a name, and the fixed part. -/
def behindQuestions : ℕ → ℕ → Option ℕ
  | 0, cursor => some cursor
  | n + 1, cursor =>
      match expandName abuf alen cursor with
      | .error _ => none
      | .ok (_, len) =>
          if cursor + len + questionSize > alen then none
          else behindQuestions n (cursor + len + questionSize)

variable {expandName abuf alen} in
theorem parseQuestions_value (n cursor : ℕ) :
    (parseQuestions expandName abuf alen n cursor).value =
      behindQuestions expandName abuf alen n cursor := by
  induction n generalizing cursor with
  | zero => rfl
  | succ n ih =>
      rw [parseQuestions, behindQuestions, Traced.bind_value, parseQuestion, Traced.bind_value,
        aresExpandName, Traced.access_value]
      cases hname : expandName abuf alen cursor with
      | error status => rfl
      | ok named =>
          dsimp only
          by_cases hfixed : cursor + named.2 + questionSize > alen
          · rw [if_pos hfixed, if_pos hfixed]
            rfl
          · rw [if_neg hfixed, if_neg hfixed]
            exact ih _

/-- Where the data of a record begins, and its length. -/
structure Data where
  place : ℕ
  length : ℕ
deriving DecidableEq, Repr

/-- The data of the answer at the cursor, if it is a record of type SRV whose name, fixed part
and data are there. -/
def srvData? (cursor : ℕ) : Option Data :=
  match expandName abuf alen cursor with
  | .error _ => none
  | .ok (_, len) =>
      let fixed := cursor + len
      let data : Data := ⟨fixed + recordSize, (word abuf (fixed + 8)).toNat⟩
      if fixed + recordSize > alen ∨ data.place + data.length > alen ∨ word abuf fixed ≠ typeSrv
      then none
      else some data

/-- A record of type SRV with its target. -/
structure Answer where
  data : Data
  target : Bytes
  targetLength : ℕ
deriving DecidableEq, Repr

namespace Answer

/-- The priority, the weight and the port are in the data, and so is the target. -/
def Complete (a : Answer) : Prop := 6 + a.targetLength ≤ a.data.length

instance (a : Answer) : Decidable a.Complete :=
  inferInstanceAs (Decidable (_ ≤ _))

def record (a : Answer) : SrvRecord :=
  { prio := word abuf a.data.place
    weight := word abuf (a.data.place + 2)
    fqdn := a.target
    port := word abuf (a.data.place + 4) }

end Answer

def answer? (cursor : ℕ) : Option Answer :=
  match srvData? expandName abuf alen cursor with
  | none => none
  | some data =>
      match expandName abuf alen (data.place + 6) with
      | .error _ => none
      | .ok (target, len) => some ⟨data, target, len⟩

/-- Some answers from the cursor on, if they all parse. -/
def answers? : ℕ → ℕ → Option (List Answer)
  | 0, _ => some []
  | n + 1, cursor =>
      match answer? expandName abuf alen cursor with
      | none => none
      | some a => (answers? n (a.data.place + a.data.length)).map (a :: ·)

/-! ## Messages whose names have no pointers -/

/-- `ARES_EBADNAME`. -/
def badName : AresError := ⟨8, by decide⟩

/-- `ares_expand_name` for messages whose names have no pointers. -/
def expandPlain : ExpandName := fun abuf alen cursor =>
  match DnsNames.readName abuf alen cursor with
  | none => .error badName
  | some named => .ok named

theorem expandPlain_le {abuf : ℕ → UInt8} {alen cursor : ℕ} {name : Bytes} {len : ℕ}
    (hname : expandPlain abuf alen cursor = .ok (name, len)) : cursor + len ≤ alen := by
  rw [expandPlain] at hname
  cases hread : DnsNames.readName abuf alen cursor with
  | none =>
      rw [hread] at hname
      exact absurd hname (by simp)
  | some named =>
      rw [hread] at hname
      rw [Except.ok.inj hname] at hread
      exact DnsNames.readName_le hread

/-- The answer to a query for `"a"`: the question, and one record of type SRV and class IN
that declares `dlen` bytes of data. -/
def answerMessage (dlen : UInt8) (data : Bytes) : Bytes :=
  [0x12, 0x34, 0x81, 0x80, 0, 1, 0, 1, 0, 0, 0, 0] ++ [1, 97, 0, 0, 33, 0, 1] ++
    [1, 97, 0, 0, 33, 0, 1, 0, 0, 0, 60, 0, dlen] ++ data

end BbMonitor.ServiceResolver
