import BbMonitor.Lib.Framing
import BbMonitor.Strings

/-!
# Container tags

`split_splunk_tag` looks into a tag `image/container/id` or `container/id` for the container,
and into a container of kubernetes for its namespace and its name, both from the end: the
positions are those of the last separators, so that it does not matter what is in the image.

The place of the slash in front of the container is 0 when there is none.  It is also 0 when
the tag begins with that slash, that is, when the image is the empty string.  Then the slash
stays in the container, although it is the one that was to be removed.
-/

namespace BbMonitor.Elasticsearch

def slash : UInt8 := 0x2f

def underscore : UInt8 := 0x5f

/-! ## The source -/

/-- `s.find_last_of(c)`. -/
def findLastOf (s : Bytes) (c : UInt8) : Option ℕ :=
  (s.reverse.idxOf? c).map (s.length - 1 - ·)

/-- `s.find_last_of(c, pos)`. -/
def findLastOfTo (s : Bytes) (c : UInt8) (pos : ℕ) : Option ℕ :=
  findLastOf (s.take (pos + 1)) c

/-- The code that is returned, `container_ns` and `container_name`. -/
abbrev SplitTag := ℤ × Bytes × Bytes

/-- The second half of `split_splunk_tag`, from `start with k8s_` on. -/
def splitContainer (container : Bytes) : SplitTag :=
  if (bytes "k8s_").isPrefixOf container then
    match findLastOf container underscore with
    | none => (-1, [], [])
    | some lastUnderscore =>
        if lastUnderscore < 10 then (-1, [], [])
        else match findLastOfTo container underscore (lastUnderscore - 1) with
          | none => (-1, [], [])
          | some secondLast =>
              if secondLast < 1 then (-1, [], [])
              else match findLastOfTo container underscore (secondLast - 1) with
                | none => (-1, [], [])
                | some thirdLast =>
                    if thirdLast < 1 then (-1, [], [])
                    else (0, (container.drop (thirdLast + 1)).take (secondLast - thirdLast - 1),
                      container.take thirdLast)
  -- This is normal docker without k8s.
  else (0, [], container)

def splitSplunkTag (s : Bytes) : SplitTag :=
  match findLastOf s slash with
  | none => (-1, [], [])
  | some last =>
      if last < 2 then (-1, [], [])
      else
        -- 0 if there is no second slash.
        let secondLast := (findLastOfTo s slash (last - 1)).getD 0
        splitContainer <|
          if secondLast ≠ 0 then (s.drop (secondLast + 1)).take (last - secondLast - 1)
          else s.take last

/-! ## The last separator -/

section

variable {c : UInt8} {first rest : Bytes}

theorem findLastOf_append_cons (first : Bytes) (hrest : c ∉ rest) :
    findLastOf (first ++ c :: rest) c = some first.length := by
  have hreverse : (first ++ c :: rest).reverse = rest.reverse ++ c :: first.reverse := by simp
  have hmem : c ∉ rest.reverse := by rwa [List.mem_reverse]
  rw [findLastOf, hreverse, idxOf?_append_cons hmem, Option.map_some, List.length_append,
    List.length_cons, List.length_reverse]
  congr 1
  omega

theorem findLastOf_of_notMem (hmem : c ∉ rest) : findLastOf rest c = none := by
  rw [findLastOf, List.idxOf?_eq_none_iff.mpr (by rwa [List.mem_reverse]), Option.map_none]

/-- The search in front of a separator goes on with what is in front of it. -/
theorem findLastOfTo_length (hfirst : first ≠ []) (rest : Bytes) :
    findLastOfTo (first ++ rest) c (first.length - 1) = findLastOf first c := by
  have hlength := List.length_pos_of_ne_nil hfirst
  rw [findLastOfTo, Nat.sub_add_cancel hlength, List.take_left]

end

/-! ## Containers -/

/-- A part of the name of a container of kubernetes. -/
structure Part where
  text : Bytes
  text_ne_nil : text ≠ []
  underscore_notMem : underscore ∉ text
  slash_notMem : slash ∉ text

inductive Container where
  | k8s (name pod ns uid attempt : Part)
  | docker (c : Bytes) (two_le_length : 2 ≤ c.length) (slash_notMem : slash ∉ c)
      (not_k8s : ¬bytes "k8s_" <+: c)

namespace Container

/-- `k8s_name_pod`. -/
def k8sName (name pod : Part) : Bytes :=
  bytes "k8s_" ++ name.text ++ underscore :: pod.text

def text : Container → Bytes
  | .k8s name pod ns uid attempt =>
      k8sName name pod ++ underscore ::
        (ns.text ++ underscore :: (uid.text ++ underscore :: attempt.text))
  | .docker c _ _ _ => c

/-- What is to be returned for a tag with the container. -/
def decoded : Container → SplitTag
  | .k8s name pod ns _ _ => (0, ns.text, k8sName name pod)
  | .docker c _ _ _ => (0, [], c)

theorem slash_notMem_text (container : Container) : slash ∉ container.text := by
  cases container with
  | k8s name pod ns uid attempt =>
      have hk8s : slash ∉ bytes "k8s_" := by decide
      have hne : slash ≠ underscore := by decide
      simp [text, k8sName, hk8s, hne, Part.slash_notMem]
  | docker c _ hslash _ => exact hslash

theorem seven_le_length_k8sName (name pod : Part) : 7 ≤ (k8sName name pod).length := by
  have hk8s : (bytes "k8s_").length = 4 := rfl
  have hname := List.length_pos_of_ne_nil name.text_ne_nil
  have hpod := List.length_pos_of_ne_nil pod.text_ne_nil
  rw [k8sName, List.length_append, List.length_append, List.length_cons, hk8s]
  omega

theorem two_le_length_text (container : Container) : 2 ≤ container.text.length := by
  cases container with
  | k8s name pod ns uid attempt =>
      have hlength := seven_le_length_k8sName name pod
      rw [text, List.length_append]
      omega
  | docker c hlength _ _ => exact hlength

/-- The three last underscores are in front of the attempt, of the uid and of the
namespace. -/
theorem splitContainer_k8s (name pod ns uid attempt : Part) :
    splitContainer (k8s name pod ns uid attempt).text =
      (k8s name pod ns uid attempt).decoded := by
  set container := (k8s name pod ns uid attempt).text with hcontainer
  set upToPod := k8sName name pod with hupToPod
  set upToNs := upToPod ++ underscore :: ns.text with hupToNs
  set upToUid := upToNs ++ underscore :: uid.text with hupToUid
  have hpod : 7 ≤ upToPod.length := seven_le_length_k8sName name pod
  have hns : upToNs.length = upToPod.length + ns.text.length + 1 := by
    rw [hupToNs, List.length_append, List.length_cons, Nat.add_assoc]
  have huid : upToUid.length = upToNs.length + uid.text.length + 1 := by
    rw [hupToUid, List.length_append, List.length_cons, Nat.add_assoc]
  have huidPos := List.length_pos_of_ne_nil uid.text_ne_nil
  have hnsPos := List.length_pos_of_ne_nil ns.text_ne_nil
  have hsplitUid : container = upToUid ++ underscore :: attempt.text := by
    simp [hcontainer, hupToUid, hupToNs, hupToPod, text]
  have hsplitNs : container = upToNs ++ underscore :: (uid.text ++ underscore :: attempt.text) := by
    simp [hcontainer, hupToNs, hupToPod, text]
  have hprefix : (bytes "k8s_").isPrefixOf container = true := by
    rw [List.isPrefixOf_iff_prefix, hcontainer, text, k8sName, List.append_assoc,
      List.append_assoc]
    exact List.prefix_append _ _
  have hlast : findLastOf container underscore = some upToUid.length := by
    rw [hsplitUid]
    exact findLastOf_append_cons upToUid attempt.underscore_notMem
  have hsecond : findLastOfTo container underscore (upToUid.length - 1) = some upToNs.length := by
    rw [hsplitUid, findLastOfTo_length (List.ne_nil_of_length_pos (by omega))]
    exact findLastOf_append_cons upToNs uid.underscore_notMem
  have hthird : findLastOfTo container underscore (upToNs.length - 1) = some upToPod.length := by
    rw [hsplitNs, findLastOfTo_length (List.ne_nil_of_length_pos (by omega))]
    exact findLastOf_append_cons upToPod ns.underscore_notMem
  have hnamespace : (container.drop (upToPod.length + 1)).take
      (upToNs.length - upToPod.length - 1) = ns.text := by
    have hlength : upToNs.length - upToPod.length - 1 = ns.text.length := by omega
    rw [hlength, hcontainer, text, drop_append_cons, List.take_left]
  have hname : container.take upToPod.length = upToPod := by
    rw [hcontainer, text, List.take_left]
  rw [splitContainer, if_pos hprefix, hlast]
  dsimp only
  rw [if_neg (by omega), hsecond]
  dsimp only
  rw [if_neg (by omega), hthird]
  dsimp only
  rw [if_neg (by omega), hnamespace, hname, decoded]

theorem splitContainer_text (container : Container) :
    splitContainer container.text = container.decoded := by
  cases container with
  | k8s name pod ns uid attempt => exact splitContainer_k8s name pod ns uid attempt
  | docker c _ _ hk8s =>
      rw [text, decoded, splitContainer, if_neg (by rwa [List.isPrefixOf_iff_prefix])]

end Container

/-! ## Tags -/

variable {container : Container} {image id : Bytes}

theorem splitSplunkTag_container (hid : slash ∉ id) :
    splitSplunkTag (container.text ++ slash :: id) = container.decoded := by
  have hlength := container.two_le_length_text
  have hlast := findLastOf_append_cons container.text hid
  have hsecond : findLastOfTo (container.text ++ slash :: id) slash (container.text.length - 1) =
      none := by
    rw [findLastOfTo_length (List.ne_nil_of_length_pos (by omega))]
    exact findLastOf_of_notMem container.slash_notMem_text
  rw [splitSplunkTag, hlast]
  dsimp only
  rw [if_neg (by omega), hsecond, Option.getD_none, if_neg (by decide), List.take_left,
    container.splitContainer_text]

/-- The slash in front of the container is removed unless the tag begins with it. -/
theorem splitSplunkTag_image (hid : slash ∉ id) :
    splitSplunkTag (image ++ slash :: (container.text ++ slash :: id)) =
      splitContainer (if image = [] then slash :: container.text else container.text) := by
  set upToContainer := image ++ slash :: container.text with hupTo
  have hsplit : image ++ slash :: (container.text ++ slash :: id) =
      upToContainer ++ slash :: id := by
    rw [hupTo, List.append_assoc, List.cons_append]
  have hlength := container.two_le_length_text
  have hupToLength : upToContainer.length = image.length + container.text.length + 1 := by
    rw [hupTo, List.length_append, List.length_cons, Nat.add_assoc]
  have hlast := findLastOf_append_cons upToContainer hid
  have hsecond : findLastOfTo (upToContainer ++ slash :: id) slash (upToContainer.length - 1) =
      some image.length := by
    rw [findLastOfTo_length (List.ne_nil_of_length_pos (by omega))]
    exact findLastOf_append_cons image container.slash_notMem_text
  rw [hsplit, splitSplunkTag, hlast]
  dsimp only
  rw [if_neg (by omega), hsecond, Option.getD_some]
  by_cases himage : image = []
  · subst himage
    rw [if_neg (by simp), if_pos rfl, List.take_left, hupTo, List.nil_append]
  · have hne : image.length ≠ 0 := fun hzero => himage (List.length_eq_zero_iff.mp hzero)
    have hlengthEq : upToContainer.length - image.length - 1 = container.text.length := by omega
    rw [if_pos hne, if_neg himage, hlengthEq, ← hsplit, drop_append_cons, List.take_left]

/-- With a slash in front no container begins with `k8s_`. -/
theorem splitContainer_slash (c : Bytes) : splitContainer (slash :: c) = (0, [], slash :: c) := by
  have hk8s : bytes "k8s_" = 0x6b :: bytes "8s_" := rfl
  rw [splitContainer, if_neg]
  rw [List.isPrefixOf_iff_prefix, hk8s, List.cons_prefix_cons, not_and]
  intro heq
  exact absurd heq (by decide)

theorem decoded_ne_slash (container : Container) :
    container.decoded ≠ (0, [], slash :: container.text) := by
  intro heq
  obtain ⟨-, heq⟩ := Prod.mk.inj heq
  obtain ⟨hnamespace, hname⟩ := Prod.mk.inj heq
  cases container with
  | k8s name pod ns uid attempt => exact ns.text_ne_nil hnamespace
  | docker c _ _ _ =>
      have hlength : c.length = c.length + 1 := congrArg List.length hname
      omega

/-- Both tags of a container are decoded, just when the image is not the empty string. -/
theorem splitSplunkTag_iff (hid : slash ∉ id) :
    splitSplunkTag (image ++ slash :: (container.text ++ slash :: id)) = container.decoded ∧
      splitSplunkTag (container.text ++ slash :: id) = container.decoded ↔ image ≠ [] := by
  rw [splitSplunkTag_image hid, splitSplunkTag_container hid]
  by_cases himage : image = []
  · rw [if_pos himage, splitContainer_slash]
    exact iff_of_false (fun h => decoded_ne_slash container h.1.symm) (not_not_intro himage)
  · rw [if_neg himage, container.splitContainer_text]
    exact iff_of_true ⟨rfl, rfl⟩ himage

/-- `rancher/ab/1` and `ab/1`. -/
theorem splitSplunkTag_rancher :
    let container := Container.docker (bytes "ab") (by decide) (by decide)
      (by decide)
    splitSplunkTag (bytes "rancher" ++ slash :: (container.text ++ slash :: bytes "1")) =
        container.decoded ∧
      splitSplunkTag (container.text ++ slash :: bytes "1") = container.decoded := by
  intro container
  exact (splitSplunkTag_iff (by decide)).mpr (by decide)

/-- `/ab/1`. -/
theorem splitSplunkTag_empty_image :
    ¬∀ (container : Container) (image id : Bytes), slash ∉ id → id ≠ [] →
      splitSplunkTag (image ++ slash :: (container.text ++ slash :: id)) = container.decoded := by
  intro hdecoded
  have htag := hdecoded (.docker (bytes "ab") (by decide) (by decide)
    (by decide +kernel)) [] (bytes "1") (by decide +kernel) (by decide +kernel)
  exact absurd htag (by decide)

end BbMonitor.Elasticsearch
