import Flywheel.Core.Ids

/-!
# Canonical zone identifiers

Every `ZoneId` of `fcp-core` passes `ZoneId::validate`, whichever constructor or
wire format it comes from. The check reads the identifier as ASCII, so positions
in bytes are positions in characters.
-/

namespace Flywheel.Core

open Data

inductive ZoneIdError
  | empty
  | emptySegment (index : ℕ)
  | tooLong (len max : ℕ)
  | nonAscii
  | missingPrefix
  | invalidTailscaleTagPrefix
  | reservedPrefix (reserved : String)
  | invalidChar (ch : Char) (index : ℕ)
  deriving DecidableEq

/-- `char::is_ascii_lowercase` or `char::is_ascii_digit`. -/
def isLowerOrDigit (ch : Char) : Bool := ch.isLower || ch.isDigit

/-- The start of the first empty segment, when segments begin at `start` and are
separated by one character. -/
def firstEmptySegment : ℕ → List (List Char) → Option ℕ
  | _, [] => none
  | start, segment :: rest =>
    if segment.isEmpty then some start else firstEmptySegment (start + segment.length + 1) rest

/-- The first character that fails a test, with its position counted from `start`. -/
def firstInvalidChar (ok : Char → Bool) : ℕ → List Char → Option (Char × ℕ)
  | _, [] => none
  | start, ch :: rest => if ok ch then firstInvalidChar ok (start + 1) rest else some (ch, start)

/-- `ZoneId::validate_project_zone_name`, for the name after `z:project:`. -/
def validateProjectZoneName (project : List Char) : Except ZoneIdError Unit :=
  let projectStart := "z:project:".length
  if project.head? = some '-' then .error (.invalidChar '-' projectStart)
  else if project.getLast? = some '-' then
    .error (.invalidChar '-' (projectStart + project.length - 1))
  else
    match firstInvalidChar (fun ch => isLowerOrDigit ch || ch == '-') projectStart project with
    | some (ch, index) => .error (.invalidChar ch index)
    | none => .ok ()

/-- `ZoneId::validate`. -/
def validateZoneId (zoneId : ZoneId) : Except ZoneIdError Unit :=
  let chars := zoneId.toList
  if zoneId.isEmpty then .error .empty
  else if 64 < (utf8 zoneId).length then .error (.tooLong (utf8 zoneId).length 64)
  else if ¬ chars.all (fun ch => ch.toNat < 128) then .error .nonAscii
  else if ¬ "z:".toList.isPrefixOf chars then .error .missingPrefix
  else
    match firstEmptySegment 2 ((chars.drop 2).splitOn ':') with
    | some index => .error (.emptySegment index)
    | none =>
      if "proj-".toList.isPrefixOf (chars.drop 2) then .error (.reservedPrefix "z:proj-")
      else
        let project :=
          if "z:project:".toList.isPrefixOf chars then
            validateProjectZoneName (chars.drop "z:project:".length)
          else .ok ()
        match project with
        | .error e => .error e
        | .ok () =>
          match firstInvalidChar (fun ch => isLowerOrDigit ch || ch == ':' || ch == '-')
              0 chars with
          | some (ch, index) => .error (.invalidChar ch index)
          | none => .ok ()

/-- A zone id that passed validation, the only kind the code can hold. -/
abbrev CanonicalZoneId := { zoneId : ZoneId // validateZoneId zoneId = .ok () }

def CanonicalZoneId.work : CanonicalZoneId := ⟨"z:work", by decide +kernel⟩

variable (zoneId : CanonicalZoneId)

theorem CanonicalZoneId.length_le : (utf8 zoneId.1).length ≤ 64 := by
  by_contra hlong
  have hvalid := zoneId.2
  have hgt : 64 < (utf8 zoneId.1).length := by omega
  unfold validateZoneId at hvalid
  by_cases hempty : zoneId.1.isEmpty
  · simp [hempty] at hvalid
  · simp [hempty, hgt] at hvalid

/-! ### Network tags -/

def stripPrefix (start chars : List Char) : Option (List Char) :=
  if start.isPrefixOf chars then some (chars.drop start.length) else none

/-- The replacement of `:` by `-`. -/
def dashColons (chars : List Char) : List Char := chars.map fun ch => if ch = ':' then '-' else ch

/-- What a tag keeps of a zone, before separators are replaced. -/
def tagSuffix (raw : List Char) : List Char :=
  match stripPrefix "z:project:".toList raw with
  | some project => "proj-".toList ++ project
  | none => (stripPrefix "z:".toList raw).getD raw

def toTailscaleTag : String :=
  String.ofList ("tag:fcp-".toList ++ dashColons (tagSuffix zoneId.1.toList))

/-- `ZoneId::from_str`. -/
def parseZoneId (zoneId : ZoneId) : Except ZoneIdError CanonicalZoneId :=
  match h : validateZoneId zoneId with
  | .ok () => .ok ⟨zoneId, h⟩
  | .error e => .error e

/-- The zone that a tag stands for. -/
def zoneOfSuffix (suffix : List Char) : List Char :=
  match stripPrefix "proj-".toList suffix with
  | none => "z:".toList ++ suffix
  | some project => "z:project:".toList ++ project

def fromTailscaleTag (tag : String) : Except ZoneIdError CanonicalZoneId :=
  match stripPrefix "tag:fcp-".toList tag.toList with
  | none => .error .invalidTailscaleTagPrefix
  | some suffix => parseZoneId (String.ofList (zoneOfSuffix suffix))

/-- A project zone, or a zone with one segment. -/
def CanonicalZoneId.SingleName : Prop :=
  "z:project:".toList <+: zoneId.1.toList ∨ ':' ∉ zoneId.1.toList.drop 2

theorem parseZoneId_eq_ok {s : ZoneId} {zoneId : CanonicalZoneId} :
    parseZoneId s = .ok zoneId ↔ s = zoneId.1 := by
  constructor
  · intro h
    unfold parseZoneId at h
    split at h
    · exact congrArg Subtype.val (Except.ok.inj h)
    · cases h
  · rintro rfl
    unfold parseZoneId
    split
    · rfl
    · rename_i e he
      rw [zoneId.2] at he
      cases he

theorem notMem_of_firstInvalidChar {ok : Char → Bool} {start : ℕ} {chars : List Char} {ch : Char}
    (h : firstInvalidChar ok start chars = none) (hch : ok ch = false) : ch ∉ chars := by
  induction chars generalizing start with
  | nil => simp
  | cons c rest ih =>
    rw [firstInvalidChar] at h
    split at h
    · rename_i hok
      rw [List.mem_cons, not_or]
      exact ⟨fun heq => by simp [← heq, hch] at hok, ih h⟩
    · cases h

/-- What validation says about the places that tags rewrite. -/
theorem CanonicalZoneId.shape :
    "z:".toList <+: zoneId.1.toList ∧ ¬ "proj-".toList <+: zoneId.1.toList.drop 2 ∧
      ("z:project:".toList <+: zoneId.1.toList →
        ':' ∉ zoneId.1.toList.drop "z:project:".length) := by
  have hvalid := zoneId.2
  unfold validateZoneId at hvalid
  dsimp only at hvalid
  split_ifs at hvalid with _ _ _ hstart hreserved hproject
  · split at hvalid <;> cases hvalid
  all_goals
    refine ⟨List.isPrefixOf_iff_prefix.mp (by simpa using hstart),
      fun h => hreserved (List.isPrefixOf_iff_prefix.mpr h), fun h => ?_⟩
  · split at hvalid
    · cases hvalid
    split at hvalid
    · cases hvalid
    rename_i hname
    unfold validateProjectZoneName at hname
    dsimp only at hname
    split_ifs at hname
    split at hname
    · cases hname
    · rename_i hnone
      exact notMem_of_firstInvalidChar hnone (by decide)
  · exact absurd (List.isPrefixOf_iff_prefix.mpr h) hproject

theorem stripPrefix_eq_some {start chars rest : List Char} :
    stripPrefix start chars = some rest ↔ chars = start ++ rest := by
  unfold stripPrefix
  constructor
  · intro h
    split_ifs at h with hstart
    obtain ⟨tail, rfl⟩ := List.isPrefixOf_iff_prefix.mp hstart
    rw [List.drop_left' rfl] at h
    rw [Option.some.inj h]
  · rintro rfl
    rw [if_pos (List.isPrefixOf_iff_prefix.mpr (List.prefix_append _ _)), List.drop_left' rfl]

theorem dashColons_eq_self {chars : List Char} : dashColons chars = chars ↔ ':' ∉ chars := by
  constructor
  · intro h hmem
    rw [← h] at hmem
    obtain ⟨ch, -, hch⟩ := List.mem_map.mp hmem
    split at hch
    · exact absurd hch (by decide)
    · contradiction
  · intro h
    refine (List.map_congr_left fun ch hch => if_neg ?_).trans (List.map_id' chars)
    rintro rfl
    exact h hch

theorem fromTailscaleTag_ofList (suffix : List Char) :
    fromTailscaleTag (String.ofList ("tag:fcp-".toList ++ suffix)) =
      parseZoneId (String.ofList (zoneOfSuffix suffix)) := by
  have hstrip : stripPrefix "tag:fcp-".toList
      (String.ofList ("tag:fcp-".toList ++ suffix)).toList = some suffix :=
    stripPrefix_eq_some.mpr String.toList_ofList
  unfold fromTailscaleTag
  rw [hstrip]

theorem zoneOfSuffix_project {project : List Char} (h : ':' ∉ project) :
    zoneOfSuffix (dashColons (tagSuffix ("z:project:".toList ++ project))) =
      "z:project:".toList ++ project := by
  have hdash : dashColons ("proj-".toList ++ project) = "proj-".toList ++ project :=
    dashColons_eq_self.mpr (by simpa using h)
  unfold tagSuffix zoneOfSuffix
  rw [stripPrefix_eq_some.mpr rfl]
  rw [hdash, stripPrefix_eq_some.mpr rfl]

/-- Other names are read back if no separator is replaced. -/
theorem zoneOfSuffix_other {rest : List Char} (hreserved : ¬ "proj-".toList <+: rest)
    (hother : ¬ "z:project:".toList <+: "z:".toList ++ rest) :
    zoneOfSuffix (dashColons (tagSuffix ("z:".toList ++ rest))) = "z:".toList ++ rest ↔
      ':' ∉ rest := by
  have hnone : stripPrefix "z:project:".toList ("z:".toList ++ rest) = none := by
    refine Option.eq_none_iff_forall_ne_some.mpr fun project h => hother ?_
    exact ⟨project, (stripPrefix_eq_some.mp h).symm⟩
  unfold tagSuffix zoneOfSuffix
  rw [hnone, ← dashColons_eq_self]
  rw [stripPrefix_eq_some.mpr rfl, Option.getD_some]
  cases hproj : stripPrefix "proj-".toList (dashColons rest) with
  | none => exact ⟨List.append_cancel_left, congrArg ("z:".toList ++ ·)⟩
  | some project =>
    refine iff_of_false (fun hread => hother ⟨project, hread⟩) fun hdash => hreserved ?_
    rw [hdash] at hproj
    exact ⟨project, (stripPrefix_eq_some.mp hproj).symm⟩

/-- The tag of a zone is read as that zone exactly if the zone has a single name. -/
theorem fromTailscaleTag_toTailscaleTag_iff :
    fromTailscaleTag (toTailscaleTag zoneId) = .ok zoneId ↔ zoneId.SingleName := by
  obtain ⟨⟨rest, hrest⟩, hreserved, hname⟩ := zoneId.shape
  have hread : fromTailscaleTag (toTailscaleTag zoneId) = .ok zoneId ↔
      zoneOfSuffix (dashColons (tagSuffix zoneId.1.toList)) = zoneId.1.toList := by
    refine Iff.trans
      (Eq.congr_left (fromTailscaleTag_ofList _))
      (parseZoneId_eq_ok.trans ⟨fun h => ?_, fun h => ?_⟩)
    · exact String.toList_ofList.symm.trans (congrArg String.toList h)
    · rw [h, String.ofList_toList]
  refine hread.trans ?_
  by_cases hproject : "z:project:".toList <+: zoneId.1.toList
  · refine iff_of_true ?_ (.inl hproject)
    have hcolon := hname hproject
    obtain ⟨project, hzone⟩ := hproject
    rw [← hzone, List.drop_left' String.length_toList] at hcolon
    rw [← hzone]
    exact zoneOfSuffix_project hcolon
  · refine Iff.trans ?_ (or_iff_right hproject).symm
    rw [← hrest, List.drop_left' (by decide)] at hreserved ⊢
    exact zoneOfSuffix_other hreserved (by rwa [hrest])

/-- Zones have tags of their own, from which they are read back, if and only if they are project
zones or have one segment. -/
theorem tailscaleTag_invertible_iff (first second : CanonicalZoneId) :
    ((first ≠ second → toTailscaleTag first ≠ toTailscaleTag second) ∧
      fromTailscaleTag (toTailscaleTag first) = .ok first ∧
      fromTailscaleTag (toTailscaleTag second) = .ok second) ↔
    first.SingleName ∧ second.SingleName := by
  rw [fromTailscaleTag_toTailscaleTag_iff, fromTailscaleTag_toTailscaleTag_iff]
  refine ⟨And.right, fun h => ⟨fun hne htag => hne ?_, h⟩⟩
  have hfirst := (fromTailscaleTag_toTailscaleTag_iff first).mpr h.1
  rw [htag, (fromTailscaleTag_toTailscaleTag_iff second).mpr h.2] at hfirst
  exact (Except.ok.inj hfirst).symm

/-- The zones `z:work:child` and `z:work-child` have the same tag, and so do `z:proj:foo` and
`z:project:foo`. -/
theorem child_zone_shares_tag : ∃ child dashed segment project : CanonicalZoneId,
    child ≠ dashed ∧ toTailscaleTag child = toTailscaleTag dashed ∧
      fromTailscaleTag (toTailscaleTag child) = .ok dashed ∧
      segment ≠ project ∧ toTailscaleTag segment = toTailscaleTag project :=
  ⟨⟨"z:work:child", by decide +kernel⟩, ⟨"z:work-child", by decide +kernel⟩,
    ⟨"z:proj:foo", by decide +kernel⟩, ⟨"z:project:foo", by decide +kernel⟩, by decide +kernel,
    by decide +kernel, by decide +kernel, by decide +kernel, by decide +kernel⟩

end Flywheel.Core
