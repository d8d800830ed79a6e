import BbMonitor.ClientUtils.KvTerms
import BbMonitor.DdLogProxy.OutOfRange
import BbMonitor.Lib.Occurrences

/-!
# The lines that a datadog agent writes

A line has seven words, each with a blank behind it, then the source, its category and the tags
in brackets, and then the text that was logged.  `handle_line` finds all of them again
(`handleLine_text`): the source and the category by searching for names that no other part may
contain, and the tags as pairs, although it takes the tags with their quotation marks.
-/

namespace BbMonitor.DdLogProxy

open KvFilter (Gap Term)

/-! ## The lines -/

/-- `']'`. -/
def rightBracket : UInt8 := 0x5d

/-- A value in brackets. -/
def bracketed (name value : Bytes) : Bytes :=
  bytes "[dd " ++ (name ++ (bytes "=\"" ++ (value ++ [quotationMark, rightBracket])))

structure AgentLine where
  apiKey : Bytes
  priority : Bytes
  collectionTime : Bytes
  host : Bytes
  source : Bytes
  unknown1 : Bytes
  unknown2 : Bytes
  ddsource : Bytes
  ddsourceCategory : Bytes
  tags : KvText (bytes "\",") 0x3a
  logged : Bytes
  words : ∀ word ∈ [apiKey, priority, collectionTime, host, source, unknown1, unknown2, ddsource,
    ddsourceCategory], space ∉ word
  unquoted : ∀ value ∈ [ddsource, ddsourceCategory], quotationMark ∉ value
  unbracketed : rightBracket ∉ tags.text

namespace AgentLine

variable (l : AgentLine)

/-- What is behind the seven words. -/
def values : Bytes :=
  bracketed (bytes "ddsource") l.ddsource ++
    (bracketed (bytes "ddsourcecategory") l.ddsourceCategory ++
      (bracketed (bytes "ddtags") l.tags.text ++ l.logged))

def text : Bytes :=
  l.apiKey ++ space :: (l.priority ++ space :: (l.collectionTime ++ space :: (l.host ++ space ::
    (l.source ++ space :: (l.unknown1 ++ space :: (l.unknown2 ++ space :: l.values))))))

/-- What is to be read from the line. -/
def parts : Parts :=
  ⟨l.host, l.source, l.ddsource, l.ddsourceCategory, l.tags.pairs, l.logged⟩

/-- The log line that is to be inserted for the line at the time `now`. -/
def logLine (md5Uuid : Bytes → Bytes) (now : Int64) : LogLine where
  id := md5Uuid (l.ddsource ++ l.ddsourceCategory ++ l.logged)
  agent := bytes "datadog"
  host := l.host
  source := l.source
  labels := ⟨bytes "ddsource", l.ddsource⟩ :: ⟨bytes "ddsourcecategory", l.ddsourceCategory⟩ ::
    l.tags.pairs.map fun tag => ⟨tag.key, tag.val⟩
  timestampNs := now
  line := l.logged

end AgentLine

/-! ## Values in brackets -/

section

variable {name name' value rest : Bytes}

theorem bracketed_append (name value rest : Bytes) :
    bracketed name value ++ rest =
      [0x5b] ++ (bytes "dd " ++ ((name ++ bytes "=\"") ++
        (value ++ quotationMark :: rightBracket :: rest))) := by
  have hopening : bytes "[dd " = [0x5b] ++ bytes "dd " := rfl
  simp only [bracketed, hopening, List.append_assoc, List.cons_append, List.nil_append]

/-- The search for a value stops at the first with this name. -/
theorem firstOccurrence_bracketed (hname : name <+: name' ++ bytes "=\"") :
    firstOccurrence (bytes "dd " ++ name) (bracketed name' value ++ rest) = some 1 := by
  rw [bracketed_append, firstOccurrence_append, firstOccurrence_of_prefix]
  · rfl
  · rw [List.prefix_append_right_inj]
    exact hname.trans (List.prefix_append _ _)
  · intro i hi hmatch
    obtain rfl : i = 0 := Nat.lt_one_iff.mp hi
    have hfirst := (List.cons_prefix_cons.mp hmatch).1
    revert hfirst
    decide

/-- A value with another name is passed by. -/
theorem firstOccurrence_bracketed_append (hvalue : space ∉ name' ++ (bytes "=\"" ++ value))
    (hname : ¬ name.take (name' ++ bytes "=\"").length <+: name' ++ bytes "=\"") :
    firstOccurrence (bytes "dd " ++ name) (bracketed name' value ++ rest) =
      (firstOccurrence (bytes "dd " ++ name) rest).map ((bracketed name' value).length + ·) := by
  have hsplit : bracketed name' value = (bytes "[dd " ++ (name' ++ (bytes "=\"" ++ value))) ++
      [quotationMark, rightBracket] := by
    simp only [bracketed, List.append_assoc]
  refine firstOccurrence_append fun i hi hmatch => ?_
  have hfirst := getElem?_of_prefix (k := 0) (c := 0x64) hmatch rfl
  have hblank := getElem?_of_prefix (k := 2) (c := space) hmatch rfl
  rw [Nat.add_zero, List.getElem?_append_left hi] at hfirst
  by_cases hlast : i < (bytes "[dd " ++ (name' ++ (bytes "=\"" ++ value))).length
  · -- the blank behind `dd` can only be the one in front of the name
    have hposition : i + 2 < 4 := by
      by_contra hge
      rw [hsplit, List.append_assoc, List.append_assoc (bytes "[dd "),
        List.getElem?_append_right (not_lt.mp hge)] at hblank
      have hlength : (bytes "[dd ").length = 4 := rfl
      rw [List.length_append] at hlast
      rcases Nat.lt_or_ge (i + 2 - 4) (name' ++ (bytes "=\"" ++ value)).length with hlt | hge'
      · rw [hlength, List.getElem?_append_left hlt] at hblank
        exact hvalue (List.mem_of_getElem? hblank)
      · rw [hlength, List.getElem?_append_right hge', List.getElem?_append_left
          (by simp only [List.length_cons, List.length_nil]; omega)] at hblank
        have hmem := List.mem_of_getElem? hblank
        revert hmem
        decide
    obtain rfl | rfl : i = 0 ∨ i = 1 := by omega
    · have hbracket : some (0x5b : UInt8) = some 0x64 := hfirst
      exact absurd hbracket (by decide)
    · rw [bracketed_append, List.singleton_append, List.drop_one, List.tail_cons,
        List.prefix_append_right_inj] at hmatch
      exact not_prefix_append hname hmatch
  · -- it does not begin with the last two characters
    rw [hsplit, List.getElem?_append_right (not_lt.mp hlast)] at hfirst
    have hmem := List.mem_of_getElem? hfirst
    revert hmem
    decide

end

/-! ## The searches -/

section

variable {line word rest name value : Bytes} {pos : ℕ}

/-- A word and the blank behind it. -/
theorem exists_blank (hpos : pos ≤ line.length) (hdrop : line.drop pos = word ++ space :: rest)
    (hword : space ∉ word) :
    ∃ p, findFirstOf line [space] pos = some p ∧ substr line pos (p - pos) = .ok word ∧
      line.drop (p + 1) = rest ∧ p + 1 ≤ line.length := by
  have hfind := findFirstOf_char_eq_some hdrop hword
  refine ⟨_, hfind, ?_, KvFilter.drop_behind hdrop, (findFirstOf_bounds hfind).2⟩
  rw [Nat.add_sub_cancel_left, substr_of_le hpos, hdrop, List.take_left]

theorem find_eq_firstOccurrence (hpos : pos ≤ line.length) (pattern : Bytes) :
    find line pattern pos = (firstOccurrence pattern (line.drop pos)).map (pos + ·) := by
  rw [find, if_neg (not_lt.mpr hpos)]
  rfl

/-- Where a value begins, and that it is found up to the quotation mark. -/
theorem value_of_bracketed {k : ℕ} (hk : name.length + 5 = k) (hsize : line.length < 2 ^ 64)
    (hdrop : line.drop pos = bracketed name value ++ rest) (hvalue : quotationMark ∉ value) :
    ∃ p, findFirstOf line [quotationMark] (pos + 1 + k) = some p ∧
      substr line (pos + 1 + k) (toSizeT (p - (pos + 1 : ℕ) - k)) = .ok value := by
  subst hk
  have hopening : ([0x5b] ++ (bytes "dd " ++ (name ++ bytes "=\""))).length =
      1 + (name.length + 5) := by
    have hdd : (bytes "dd ").length = 3 := rfl
    have hequals : (bytes "=\"").length = 2 := rfl
    simp only [List.length_append, hdd, hequals, List.length_singleton]
    omega
  have hbegin : line.drop (pos + 1 + (name.length + 5)) =
      value ++ quotationMark :: (rightBracket :: rest) := by
    have htail : line.drop (pos + (1 + (name.length + 5))) =
        (line.drop pos).drop (1 + (name.length + 5)) := List.drop_drop.symm
    have hassoc : bracketed name value ++ rest = ([0x5b] ++ (bytes "dd " ++ (name ++ bytes "=\"")))
        ++ (value ++ quotationMark :: rightBracket :: rest) := by
      rw [bracketed_append]
      simp only [List.append_assoc]
    rw [Nat.add_assoc, htail, hdrop, hassoc, ← hopening, List.drop_left]
  have hfind := findFirstOf_char_eq_some hbegin hvalue
  have hlength := congrArg List.length hbegin
  rw [List.length_drop, List.length_append, List.length_cons] at hlength
  refine ⟨_, hfind, ?_⟩
  have hdistance : toSizeT ((pos + 1 + (name.length + 5) + value.length : ℕ) -
      (pos + 1 : ℕ) - (name.length + 5 : ℕ)) = value.length := by
    rw [toSizeT]
    omega
  rw [hdistance, substr_of_le (by omega), hbegin, List.take_left]

end

/-! ## The tags -/

/-- The tags are taken with their quotation marks. -/
def quoted (text : Bytes) : Bytes :=
  quotationMark :: (text ++ [quotationMark])

theorem bracketed_ddtags (value rest : Bytes) :
    bracketed (bytes "ddtags") value ++ rest =
      bytes "[dd ddtags=" ++ (quoted value ++ rightBracket :: rest) := by
  have hopening : bytes "[dd ddtags=" =
      [0x5b] ++ (bytes "dd " ++ (bytes "ddtags" ++ [equalsSign])) := rfl
  have hequals : bytes "=\"" = [equalsSign, quotationMark] := rfl
  rw [bracketed_append, hopening, hequals, quoted]
  simp only [List.append_assoc, List.cons_append, List.nil_append]

def quotationGap : KvFilter.Gap (bytes "\",") :=
  ⟨[quotationMark], List.cons_ne_nil _ _, by decide +kernel⟩

/-- Between quotation marks the tags are terms as before, with an empty word on either side. -/
def quotedTags (t : KvText (bytes "\",") 0x3a) : KvText (bytes "\",") 0x3a where
  first := .word [] (List.forall_mem_nil _)
  rest := (quotationGap, t.first) ::
    (t.rest ++ [(quotationGap, .word [] (List.forall_mem_nil _))])

theorem text_quotedTags (t : KvText (bytes "\",") 0x3a) :
    (quotedTags t).text = quoted t.text := by
  simp [quotedTags, quotationGap, KvText.text, KvText.tailText, Term.text, quoted]

theorem pairs_quotedTags (t : KvText (bytes "\",") 0x3a) : (quotedTags t).pairs = t.pairs := by
  simp [quotedTags, KvText.pairs, Term.pair?, List.filterMap_cons]

theorem exists_kvMatch_quotedTags (t : KvText (bytes "\",") 0x3a)
    (hsize : (quotedTags t).text.length < 2 ^ 31) :
    ∃ ec, ddKvParser.kvMatch (quoted t.text) =
      .ok (ec, t.pairs) := by
  have hscan : ddKvParser.scan (quotedTags t).text ((quotedTags t).text.length + 2)
      (Int32.ofNat 0) [] = .ok ([] ++ (quotedTags t).pairs) :=
    KvFilter.scan_terms (by decide) hsize (quotedTags t).first (quotedTags t).rest
      (Nat.zero_le _) (by omega) List.drop_zero
  have hzero : Int32.ofNat 0 = 0 := rfl
  rw [hzero, List.nil_append, pairs_quotedTags] at hscan
  rw [← text_quotedTags, KvFilter.kvMatch, hscan]
  exact ⟨_, rfl⟩

/-! ## The statement -/

theorem orReturn_some_bind {α : Type} (p : ℕ) (f : ℕ → OptionT (Except Failure) α) :
    orReturn (some p) >>= f = f p :=
  rfl

theorem lift_ok_bind {α β : Type} (a : α) (f : α → OptionT (Except Failure) β) :
    (liftM (Except.ok a : Except Failure α) : OptionT (Except Failure) α) >>= f = f a :=
  rfl

theorem space_notMem_value {name value : Bytes} (hname : space ∉ name ++ bytes "=\"")
    (hvalue : space ∉ value) : space ∉ name ++ (bytes "=\"" ++ value) := by
  rw [← List.append_assoc, List.mem_append]
  exact not_or.mpr ⟨hname, hvalue⟩

namespace AgentLine

variable (l : AgentLine) {pos : ℕ} (hsize : l.text.length < 2 ^ 31) (hpos : pos ≤ l.text.length)
  (hdrop : l.text.drop pos = l.values)

include hsize hpos hdrop

theorem exists_ddsource :
    ∃ p, find l.text (bytes "dd ddsource") pos = some p ∧
      ∃ q, findFirstOf l.text [quotationMark] (p + 13) = some q ∧
        substr l.text (p + 13) (toSizeT (q - p - 13)) = .ok l.ddsource := by
  have hquote : quotationMark ∉ l.ddsource := l.unquoted _ (by simp)
  obtain ⟨q, hfind, hvalue⟩ :=
    value_of_bracketed (k := 13) (by rfl) (by omega) hdrop hquote
  refine ⟨pos + 1, ?_, q, hfind, by exact_mod_cast hvalue⟩
  rw [find_eq_firstOccurrence hpos, hdrop]
  have hfirst : firstOccurrence (bytes "dd " ++ bytes "ddsource") l.values = some 1 :=
    firstOccurrence_bracketed ⟨bytes "=\"", rfl⟩
  exact congrArg (Option.map (pos + ·)) hfirst

theorem exists_ddsourceCategory :
    ∃ p, find l.text (bytes "dd ddsourcecategory") pos = some p ∧
      ∃ q, findFirstOf l.text [quotationMark] (p + 21) = some q ∧
        substr l.text (p + 21) (toSizeT (q - p - 21)) = .ok l.ddsourceCategory := by
  have hquote : quotationMark ∉ l.ddsourceCategory := l.unquoted _ (by simp)
  have hblank := space_notMem_value (by decide : space ∉ bytes "ddsource" ++ bytes "=\"")
    (l.words l.ddsource (by simp))
  have hbehind : l.text.drop (pos + (bracketed (bytes "ddsource") l.ddsource).length) =
      bracketed (bytes "ddsourcecategory") l.ddsourceCategory ++
        (bracketed (bytes "ddtags") l.tags.text ++ l.logged) := by
    rw [← List.drop_drop, hdrop, values, List.drop_left]
  obtain ⟨q, hfind, hvalue⟩ :=
    value_of_bracketed (k := 21) (by rfl) (by omega) hbehind hquote
  refine ⟨_, ?_, q, hfind, by exact_mod_cast hvalue⟩
  rw [find_eq_firstOccurrence hpos, hdrop]
  have hfirst : firstOccurrence (bytes "dd " ++ bytes "ddsourcecategory") l.values =
      some ((bracketed (bytes "ddsource") l.ddsource).length + 1) := by
    rw [values, firstOccurrence_bracketed_append hblank (by decide),
      firstOccurrence_bracketed ⟨bytes "=\"", rfl⟩, Option.map_some]
  rw [Nat.add_assoc]
  exact congrArg (Option.map (pos + ·)) hfirst

/-- The tags with their quotation marks, and what is behind them. -/
theorem exists_ddtags :
    ∃ p, find l.text (bytes "dd ddtags=") pos = some p ∧
      ∃ q, findFirstOf l.text (bytes "]") (p + 10) = some q ∧
        substr l.text (p + 10) (q - p - 10) =
          .ok (quoted l.tags.text) ∧
        substr l.text (q + 1) npos = .ok l.logged := by
  have hblank := space_notMem_value (by decide : space ∉ bytes "ddsource" ++ bytes "=\"")
    (l.words l.ddsource (by simp))
  have hblank' := space_notMem_value (by decide : space ∉ bytes "ddsourcecategory" ++ bytes "=\"")
    (l.words l.ddsourceCategory (by simp))
  let before := (bracketed (bytes "ddsource") l.ddsource).length +
    (bracketed (bytes "ddsourcecategory") l.ddsourceCategory).length
  have hfirst : firstOccurrence (bytes "dd " ++ bytes "ddtags=") l.values = some (before + 1) := by
    rw [values, firstOccurrence_bracketed_append hblank (by decide),
      firstOccurrence_bracketed_append hblank' (by decide),
      firstOccurrence_bracketed ⟨bytes "\"", rfl⟩, Option.map_some, Option.map_some,
      ← Nat.add_assoc]
  have hbegin : l.text.drop (pos + (before + 1) + 10) =
      quoted l.tags.text ++ rightBracket :: l.logged := by
    have hvalues : l.values = (bracketed (bytes "ddsource") l.ddsource ++
        (bracketed (bytes "ddsourcecategory") l.ddsourceCategory ++
          bytes "[dd ddtags=")) ++ (quoted l.tags.text ++ rightBracket :: l.logged) := by
      rw [values, bracketed_ddtags, List.append_assoc, List.append_assoc]
    rw [Nat.add_assoc, ← List.drop_drop, hdrop, hvalues]
    refine List.drop_left' ?_
    have hlength : (bytes "[dd ddtags=").length = 11 := rfl
    rw [List.length_append, List.length_append, hlength]
    omega
  have hbracket : rightBracket ∉ quoted l.tags.text := by
    have hends : rightBracket ≠ quotationMark := by decide
    simp [quoted, hends, l.unbracketed]
  have hfind := findFirstOf_char_eq_some hbegin hbracket
  obtain ⟨hge, hlt⟩ := findFirstOf_bounds hfind
  have hbehind := KvFilter.drop_behind hbegin
  refine ⟨pos + (before + 1), ?_, _, hfind, ?_, ?_⟩
  · rw [find_eq_firstOccurrence hpos, hdrop]
    exact congrArg (Option.map (pos + ·)) hfirst
  · rw [substr_of_le (by omega), hbegin, Nat.sub_sub, Nat.add_sub_cancel_left, List.take_left]
  · have hshort : l.logged.length ≤ npos := by
      have hlength := congrArg List.length hbehind
      rw [List.length_drop] at hlength
      unfold npos
      omega
    rw [substr_of_le (Nat.succ_le_of_lt hlt), hbehind, List.take_of_length_le hshort]

end AgentLine

/-- All the parts are found. -/
theorem parts_text (l : AgentLine) (hsize : l.text.length < 2 ^ 31) :
    (parts l.text).run = .ok (some l.parts) := by
  have hwords := l.words
  simp only [List.forall_mem_cons] at hwords
  obtain ⟨hapiKey, hpriority, htime, hhost, hsource, hunknown1, hunknown2, hddsource, hcategory,
    -⟩ := hwords
  have hquoted := l.unquoted
  simp only [List.forall_mem_cons] at hquoted
  obtain ⟨hquote, hquote', -⟩ := hquoted
  obtain ⟨endOfApiKey, hfind1, hsub1, hdrop1, hle1⟩ :=
    exists_blank (Nat.zero_le _) (List.drop_zero : l.text.drop 0 = _) hapiKey
  obtain ⟨end46Thing, hfind2, -, hdrop2, hle2⟩ := exists_blank hle1 hdrop1 hpriority
  obtain ⟨endOfTs, hfind3, hsub3, hdrop3, hle3⟩ := exists_blank hle2 hdrop2 htime
  obtain ⟨endOfHostname, hfind4, hsub4, hdrop4, hle4⟩ := exists_blank hle3 hdrop3 hhost
  obtain ⟨endOfSource, hfind5, hsub5, hdrop5, hle5⟩ := exists_blank hle4 hdrop4 hsource
  obtain ⟨endOfUnknown1, hfind6, hsub6, hdrop6, hle6⟩ := exists_blank hle5 hdrop5 hunknown1
  obtain ⟨endOfUnknown2, hfind7, hsub7, hdrop7, hle7⟩ := exists_blank hle6 hdrop6 hunknown2
  obtain ⟨beginDdsource, hfound, endOfDdsource, hend, hvalue⟩ := l.exists_ddsource hsize hle7 hdrop7
  obtain ⟨beginCategory, hfound', endOfCategory, hend', hvalue'⟩ :=
    l.exists_ddsourceCategory hsize hle7 hdrop7
  obtain ⟨beginDdtags, hfound'', endDdtags, hend'', htags, hlogged⟩ :=
    l.exists_ddtags hsize hle7 hdrop7
  have hquotedSize : (quotedTags l.tags).text.length < 2 ^ 31 := by
    have hlength : (quotedTags l.tags).text.length ≤ l.text.length := by
      have hbound := length_le_of_substr htags
      rwa [← text_quotedTags] at hbound
    exact lt_of_le_of_lt hlength hsize
  obtain ⟨ec, hmatch⟩ := exists_kvMatch_quotedTags l.tags hquotedSize
  rw [Nat.sub_zero] at hsub1
  rw [Nat.sub_sub] at htags
  simp only [parts, hfind1, hfind2, hfind3, hfind4, hfind5, hfind6, hfind7, hfound, hfound',
    hfound'', hend, hend', hend'', Option.getD_some, orReturn_some_bind, Nat.sub_sub, hsub1, hsub3,
    hsub4, hsub5, hsub6, hsub7, hvalue, hvalue', htags, hlogged, lift_ok_bind, hmatch]
  rfl

/-- What an agent writes is inserted as it was meant. -/
theorem handleLine_text (md5Uuid : Bytes → Bytes) (now : Int64) (l : AgentLine)
    (hsize : l.text.length < 2 ^ 31) :
    handleLine md5Uuid now l.text = .ok (some (l.logLine md5Uuid now)) := by
  rw [handleLine, parts_text l hsize]
  rfl

/-- The line that a comment in the source gives. -/
def syslogLine : AgentLine where
  apiKey := bytes "11223344556677"
  priority := bytes "<46>0"
  collectionTime := bytes "2018-07-31T09:27:41.745847338Z"
  host := bytes "saka-ThinkPad-P51"
  source := bytes "syslog"
  unknown1 := bytes "-"
  unknown2 := bytes "-"
  ddsource := bytes "syslog"
  ddsourceCategory := bytes "syslog"
  tags := ⟨KvFilter.ddTags.first, []⟩
  logged := bytes " Jul 31 11:28:47 saka-ThinkPad-P51 agent[1396]: Done running check ntp"
  words := by decide +kernel
  unquoted := by decide +kernel
  unbracketed := by decide +kernel

example : syslogLine.text =
    bytes "11223344556677 <46>0 2018-07-31T09:27:41.745847338Z saka-ThinkPad-P51 syslog - - " ++
      bytes "[dd ddsource=\"syslog\"][dd ddsourcecategory=\"syslog\"]" ++
      bytes "[dd ddtags=\"filename:syslog\"]" ++
      bytes " Jul 31 11:28:47 saka-ThinkPad-P51 agent[1396]: Done running check ntp" := by
  decide +kernel

theorem handleLine_syslogLine :
    handleLine uuidOfMd5 5 syslogLine.text = .ok (some (syslogLine.logLine uuidOfMd5 5)) :=
  handleLine_text uuidOfMd5 5 syslogLine (by decide +kernel)

end BbMonitor.DdLogProxy
