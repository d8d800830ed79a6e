import BbMonitor.ClientUtils.KvFilter
import BbMonitor.SrvUtils.Md5

/-!
# The lines of a datadog agent

`session::handle_line` takes a line apart: seven fields that end in a blank, then
the bracketed values `ddsource`, `ddsourcecategory` and `ddtags`, then the text
that was logged.  A line without one of the parts is dropped, by an early return.
The search for a quotation mark after `ddsource` and `ddsourcecategory` is not
checked, and the value is cut out at a fixed distance from where the name was
found, so that a line that ends right after the name makes `substr` throw.
-/

namespace BbMonitor.DdLogProxy

/-- `dd_kv_parser`. -/
def ddKvParser : KvFilter := kvFilter (bytes "\",") 0x3a

structure Label where
  key : Bytes
  value : Bytes
deriving DecidableEq, Repr

structure LogLine where
  id : Bytes
  agent : Bytes
  host : Bytes
  source : Bytes
  labels : List Label
  timestampNs : Int64
  line : Bytes
deriving DecidableEq, Repr

/-- What `handle_line` reads from a line. -/
structure Parts where
  host : Bytes
  source : Bytes
  ddsource : Bytes
  ddsourceCategory : Bytes
  tags : List Kv
  line : Bytes
deriving DecidableEq, Repr

/-- `if (pos == std::string::npos) return;` -/
def orReturn (pos : Option ℕ) : OptionT (Except Failure) ℕ :=
  OptionT.mk (pure pos)

/-- The searches of `handle_line`, in their order. -/
def parts (line : Bytes) : OptionT (Except Failure) Parts := do
  let endOfApiKey ← orReturn (findFirstOf line [space] 0)
  let _apiKey ← substr line 0 endOfApiKey
  let end46Thing ← orReturn (findFirstOf line [space] (endOfApiKey + 1))
  let endOfTs ← orReturn (findFirstOf line [space] (end46Thing + 1))
  let _collectionTime ← substr line (end46Thing + 1) (endOfTs - end46Thing - 1)
  let endOfHostname ← orReturn (findFirstOf line [space] (endOfTs + 1))
  let host ← substr line (endOfTs + 1) (endOfHostname - endOfTs - 1)
  let endOfSource ← orReturn (findFirstOf line [space] (endOfHostname + 1))
  let source ← substr line (endOfHostname + 1) (endOfSource - endOfHostname - 1)
  let endOfUnknown1 ← orReturn (findFirstOf line [space] (endOfSource + 1))
  let _unknown1 ← substr line (endOfSource + 1) (endOfUnknown1 - endOfSource - 1)
  let endOfUnknown2 ← orReturn (findFirstOf line [space] (endOfUnknown1 + 1))
  let _unknown2 ← substr line (endOfUnknown1 + 1) (endOfUnknown2 - endOfUnknown1 - 1)
  let beginDdsource ← orReturn (find line (bytes "dd ddsource") (endOfUnknown2 + 1))
  -- `npos` enters the size: the value then goes on to the end of the line
  let endOfDdsource := (findFirstOf line [quotationMark] (beginDdsource + 13)).getD npos
  let ddsource ← substr line (beginDdsource + 13)
    (toSizeT (endOfDdsource - beginDdsource - 13))
  let beginDdsourcecategory ←
    orReturn (find line (bytes "dd ddsourcecategory") (endOfUnknown2 + 1))
  let endDdsourcecategory :=
    (findFirstOf line [quotationMark] (beginDdsourcecategory + 21)).getD npos
  let ddsourceCategory ← substr line (beginDdsourcecategory + 21)
    (toSizeT (endDdsourcecategory - beginDdsourcecategory - 21))
  let beginDdtags ← orReturn (find line (bytes "dd ddtags=") (endOfUnknown2 + 1))
  let endDdtags ← orReturn (findFirstOf line (bytes "]") (beginDdtags + 10))
  let ddtags ← substr line (beginDdtags + 10) (endDdtags - beginDdtags - 10)
  let (_ec, tags) ← ddKvParser.kvMatch ddtags
  let text ← substr line (endDdtags + 1) npos
  return ⟨host, source, ddsource, ddsourceCategory, tags, text⟩

/-- What the digest of a log line is computed from. -/
def Parts.digested (p : Parts) : Bytes :=
  p.ddsource ++ p.ddsourceCategory ++ p.line

section

-- The text of the uuid that consists of the MD5 digest.
variable (md5Uuid : Bytes → Bytes)

/-- The log line that `handle_line` inserts into the stream. -/
def Parts.value (p : Parts) (now : Int64) : LogLine where
  id := md5Uuid p.digested
  agent := bytes "datadog"
  host := p.host
  source := p.source
  labels := [⟨bytes "ddsource", p.ddsource⟩, ⟨bytes "ddsourcecategory", p.ddsourceCategory⟩] ++
    p.tags.map fun t => ⟨t.key, t.val⟩
  timestampNs := now
  line := p.line

/-- `session::handle_line`: what it inserts, if it comes that far. -/
def handleLine (now : Int64) (line : Bytes) : Except Failure (Option LogLine) := do
  let found ← (parts line).run
  return found.map fun p => p.value md5Uuid now

end

/-- The digest as a uuid, by the implementation of MD5 in `md5.cpp`. -/
def uuidOfMd5 (text : Bytes) : Bytes :=
  let digits := md5 text
  digits.take 8 ++ bytes "-" ++ (digits.drop 8).take 4 ++ bytes "-" ++ (digits.drop 12).take 4 ++
    bytes "-" ++ (digits.drop 16).take 4 ++ bytes "-" ++ digits.drop 20

/-- `handle_line` does not return. -/
def fails (line : Bytes) : Bool :=
  match (parts line).run with
  | .error _ => true
  | .ok _ => false

theorem handleLine_of_fails {line : Bytes} (hfails : fails line = true) (md5Uuid : Bytes → Bytes)
    (now : Int64) : ∃ failure, handleLine md5Uuid now line = .error failure := by
  unfold fails at hfails
  split at hfails
  · rename_i failure hparts
    exact ⟨failure, by simp [handleLine, hparts]⟩
  · cases hfails

theorem handleLine_of_not_fails {line : Bytes} (hreturns : fails line = false)
    (md5Uuid : Bytes → Bytes) (now : Int64) :
    ∃ inserted, handleLine md5Uuid now line = .ok inserted := by
  unfold fails at hreturns
  split at hreturns
  · cases hreturns
  · rename_i found hparts
    exact ⟨found.map fun p => p.value md5Uuid now, by simp [handleLine, hparts]⟩

end BbMonitor.DdLogProxy
