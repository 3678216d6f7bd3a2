import UuuFastboot.Flash.Target
import UuuFastboot.Gadget.BaseNames

namespace UuuFastboot

open Word CString Radix

def varNames : List CStr :=
  [cstr "version-baseband", cstr "version-bootloader", cstr "bootloader-version", cstr "version",
   cstr "battery-voltage", cstr "battery-soc-ok", cstr "variant", cstr "off-mode-charge", cstr "downloadsize",
   cstr "max-download-size", cstr "erase-block-size", cstr "logical-block-size", cstr "serialno", cstr "product",
   cstr "secure", cstr "unlocked", cstr "has-slot:", cstr "slot-successful:", cstr "slot-count",
   cstr "slot-suffixes", cstr "current-slot", cstr "slot-unbootable:", cstr "slot-retry-count:"]

def namesPartition (cmd : CStr) : Bool :=
  (strstr (cstr "partition-size:") cmd).isSome || (strstr (cstr "partition-type:") cmd).isSome

def AsksVersion (cmd : CStr) : Prop :=
  namesPartition cmd = false ∧ (cstr "version-bootloader" <+: cmd ∨ cstr "bootloader-version" <+: cmd)

def AsksEnv (cmd : CStr) : Prop := namesPartition cmd = false ∧ ∀ name ∈ varNames, ¬ name <+: cmd

instance : DecidablePred AsksVersion := fun _ => inferInstanceAs (Decidable (_ ∧ _))

instance : DecidablePred AsksEnv := fun _ => inferInstanceAs (Decidable (_ ∧ _))

def VarText.Short : VarText → Prop
  | .copied text => text.length ≤ 21
  | .printed _ => True
  | .refused text => text.length ≤ 21
  | .unknown => False

/-- What the response of `length` bytes becomes still fits: only what `strncat` appends can be too long. -/
def VarText.Room (length : Nat) : VarText → Prop
  | .copied text => length + text.length ≤ 63
  | .printed _ => True
  | .refused text => length + text.length ≤ 63
  | .unknown => True

variable {response name cmd var : CStr} {v : VarSource}

theorem VarText.Short.room {t : VarText} (short : t.Short) {length : Nat} (small : length ≤ 42) : t.Room length := by
  cases t with
  | copied text => exact (Nat.add_le_add small short : length + text.length ≤ 42 + 21)
  | printed text => trivial
  | refused text => exact (Nat.add_le_add small short : length + text.length ≤ 42 + 21)
  | unknown => trivial

/-- `chars_left` leaves no room for the terminator that `strncat` adds. -/
theorem getSingleVar_fits_iff (v : VarSource) (cmd : CStr) (small : response.length ≤ 63) :
    (Built.mk (getSingleVar v cmd response).2 getvarArray).Fits ↔ (v.lookup cmd).Room response.length := by
  have size : getvarArray = 64 := rfl
  have all : fastbootResponseLen = 65 := rfl
  unfold Built.Fits getSingleVar
  cases v.lookup cmd with
  | copied text =>
    simp only [strncat, List.length_append, List.length_take, VarText.Room]
    omega
  | printed text =>
    simp only [snprintfAt, VarText.Room, iff_true]
    split
    · omega
    · simp only [List.length_append, List.length_take]
      omega
  | refused text =>
    simp only [strncat, List.length_append, List.length_take, VarText.Room]
    omega
  | unknown =>
    simp only [snprintf, VarText.Room, iff_true]
    split
    · omega
    · simp only [List.length_take]
      omega

/-- The three ways in which a response may begin. -/
def Marked (reply : CStr) : Prop := cstr "OKAY" <+: reply ∨ cstr "FAIL" <+: reply ∨ cstr "INFO" <+: reply

theorem Marked.append (marked : Marked response) (text : CStr) : Marked (response ++ text) := by
  rcases marked with mark | mark | mark
  · exact Or.inl (mark.trans (List.prefix_append _ _))
  · exact Or.inr (Or.inl (mark.trans (List.prefix_append _ _)))
  · exact Or.inr (Or.inr (mark.trans (List.prefix_append _ _)))

theorem getSingleVar_marked (v : VarSource) (cmd : CStr) (marked : Marked response)
    (small : response.length ≤ 59) : Marked (getSingleVar v cmd response).2 := by
  have all : fastbootResponseLen = 65 := rfl
  unfold getSingleVar
  cases v.lookup cmd with
  | copied text => exact marked.append _
  | printed text =>
    simp only [snprintfAt]
    split
    · exact marked
    · exact marked.append _
  | refused text => exact marked.append _
  | unknown =>
    simp only [snprintf]
    split
    · exact marked
    · refine Or.inr (Or.inl ?_)
      rw [List.prefix_take_iff]
      have four : (cstr "FAIL").length = 4 := by decide
      have start : cstr "FAIL" <+: cstr "FAILunknown variable:" := by decide
      exact ⟨start.trans (List.prefix_append _ _), by omega⟩

theorem not_prefix_of_incomparable {other : CStr} (begins : name <+: cmd)
    (apart : name.isPrefixOf other = false ∧ other.isPrefixOf name = false) : ¬ other <+: cmd := by
  intro too
  rcases List.prefix_or_prefix_of_prefix begins too with shorter | longer
  · exact absurd (List.isPrefixOf_iff_prefix.mpr shorter) (by simp [apart.1])
  · exact absurd (List.isPrefixOf_iff_prefix.mpr longer) (by simp [apart.2])

theorem hexText8_length (n : Nat) : (hexText8 n).length = 8 := rfl

theorem fstype_short (p : PtEntry) : (VarText.copied p.fstype).Short := by
  simp only [VarText.Short, PtEntry.fstype]
  split
  · split <;> decide
  · split <;> decide

theorem fixedVars_short {entry : CStr × VarText} (member : entry ∈ v.fixedVars)
    (notBootloader : entry.1 ≠ cstr "version-bootloader") (notVersion : entry.1 ≠ cstr "bootloader-version") :
    entry.2.Short := by
  have serial : v.serialno.Short := by
    unfold VarSource.serialno
    split
    · simp only [VarText.Short, List.length_append, hexText8_length]
      decide
    · unfold VarText.Short
      decide
  simp only [VarSource.fixedVars, List.mem_cons, List.not_mem_nil, or_false] at member
  rcases member with rfl | rfl | rfl | rfl | rfl | rfl | rfl | rfl | rfl | rfl | rfl | rfl | rfl | rfl | rfl | rfl |
    rfl | rfl | rfl | rfl | rfl | rfl | rfl
  · unfold VarText.Short; decide
  · exact absurd rfl notBootloader
  · exact absurd rfl notVersion
  all_goals first
    | exact serial
    | trivial
    | unfold VarText.Short; decide

theorem fixedVars_names (v : VarSource) : v.fixedVars.map Prod.fst = varNames := rfl

theorem fixedVar_version (v : VarSource)
    (asked : cstr "version-bootloader" <+: cmd ∨ cstr "bootloader-version" <+: cmd) :
    ∃ name, v.fixedVar cmd = some (name, .copied v.version) := by
  have skipped {name other : CStr} (begins : name <+: cmd)
      (apart : name.isPrefixOf other = false ∧ other.isPrefixOf name = false) : other.isPrefixOf cmd = false :=
    Bool.eq_false_iff.mpr (fun too =>
      not_prefix_of_incomparable begins apart (List.isPrefixOf_iff_prefix.mp too))
  unfold VarSource.fixedVar VarSource.fixedVars
  rcases asked with begins | begins
  · refine ⟨cstr "version-bootloader", ?_⟩
    rw [List.find?_cons_of_neg, List.find?_cons_of_pos]
    · exact List.isPrefixOf_iff_prefix.mpr begins
    · simp only [skipped begins (by decide : _ ∧ (cstr "version-baseband").isPrefixOf _ = false)]
      decide
  · refine ⟨cstr "bootloader-version", ?_⟩
    rw [List.find?_cons_of_neg, List.find?_cons_of_neg, List.find?_cons_of_pos]
    · exact List.isPrefixOf_iff_prefix.mpr begins
    · simp only [skipped begins (by decide : _ ∧ (cstr "version-bootloader").isPrefixOf _ = false)]
      decide
    · simp only [skipped begins (by decide : _ ∧ (cstr "version-baseband").isPrefixOf _ = false)]
      decide

theorem namesPartition_eq_false : namesPartition cmd = false ↔
    strstr (cstr "partition-size:") cmd = none ∧ strstr (cstr "partition-type:") cmd = none := by
  simp [namesPartition]

theorem lookup_of_fixed {entry : CStr × VarText} (unnamed : namesPartition cmd = false)
    (found : v.fixedVar cmd = some entry) : v.lookup cmd = entry.2 := by
  obtain ⟨noSize, noType⟩ := namesPartition_eq_false.mp unnamed
  simp only [VarSource.lookup, noSize, noType, found]

theorem lookup_of_asksVersion (asks : AsksVersion cmd) :
    v.lookup cmd = .copied v.version := by
  obtain ⟨name, found⟩ := fixedVar_version v asks.2
  exact lookup_of_fixed asks.1 found

/-- The environment is asked last. -/
def envText : Option CStr → VarText
  | some s => .copied s
  | none => .unknown

theorem lookup_of_asksEnv (asks : AsksEnv cmd) :
    v.lookup cmd = envText (v.env (envName cmd)) := by
  have missed : v.fixedVar cmd = none := by
    refine List.find?_eq_none.mpr (fun entry member begins => ?_)
    have known : entry.1 ∈ varNames := by
      rw [← fixedVars_names v]
      exact List.mem_map_of_mem member
    exact asks.2 _ known (List.isPrefixOf_iff_prefix.mp begins)
  obtain ⟨noSize, noType⟩ := namesPartition_eq_false.mp asks.1
  cases set_ : v.env (envName cmd) with
  | none => simp only [VarSource.lookup, noSize, noType, missed, set_, envText]
  | some s => simp only [VarSource.lookup, noSize, noType, missed, set_, envText]

theorem lookup_short_of_partition (named : namesPartition cmd = true) :
    (v.lookup cmd).Short := by
  have wrong : (VarText.refused (cstr "Wrong partition name.")).Short := by unfold VarText.Short; decide
  unfold VarSource.lookup
  split
  · split
    · exact wrong
    · trivial
  · split
    · split
      · exact wrong
      · exact fstype_short _
    · next _ size _ type => simp [namesPartition, size, type] at named

theorem lookup_short (notVersion : ¬ AsksVersion cmd) (notEnv : ¬ AsksEnv cmd) :
    (v.lookup cmd).Short := by
  cases named : namesPartition cmd with
  | true => exact lookup_short_of_partition named
  | false =>
    cases found : v.fixedVar cmd with
    | none =>
      refine absurd ⟨named, fun name known begins => ?_⟩ notEnv
      rw [← fixedVars_names v] at known
      obtain ⟨entry, member, rfl⟩ := List.mem_map.mp known
      exact List.find?_eq_none.mp found entry member (List.isPrefixOf_iff_prefix.mpr begins)
    | some entry =>
      have begins : entry.1 <+: cmd := by
        have passed := List.find?_some (p := fun entry : CStr × VarText => entry.1.isPrefixOf cmd) found
        exact List.isPrefixOf_iff_prefix.mp passed
      rw [lookup_of_fixed named found]
      refine fixedVars_short (List.mem_of_find?_eq_some found) (fun same => ?_) (fun same => ?_)
      · exact notVersion ⟨named, Or.inl (same ▸ begins)⟩
      · exact notVersion ⟨named, Or.inr (same ▸ begins)⟩

/-- What the variable `cmd` may be when `length` bytes of the response are taken. -/
structure VarFits (v : VarSource) (cmd : CStr) (length : Nat) : Prop where
  version : AsksVersion cmd → length + v.version.length ≤ 63
  env : AsksEnv cmd → ∀ s, v.env (envName cmd) = some s → length + s.length ≤ 63

theorem room_iff_varFits {length : Nat} (small : length ≤ 42) :
    (v.lookup cmd).Room length ↔ VarFits v cmd length := by
  constructor
  · intro room
    refine ⟨fun asks => ?_, fun asks s found => ?_⟩
    · rwa [lookup_of_asksVersion asks] at room
    · rwa [lookup_of_asksEnv asks, found] at room
  · intro fits
    by_cases asksVersion : AsksVersion cmd
    · rw [lookup_of_asksVersion asksVersion]
      exact fits.version asksVersion
    by_cases asksEnv : AsksEnv cmd
    · rw [lookup_of_asksEnv asksEnv]
      cases found : v.env (envName cmd) with
      | none => trivial
      | some s => exact fits.env asksEnv s found
    · exact (lookup_short asksVersion asksEnv).room small

def BaseNames (names : List CStr) (seen : List PtEntry) : Prop :=
  ∀ name ∈ names, ∃ p ∈ seen, name.length ≤ p.name.length

theorem partitionBaseNames_le (ptable : List PtEntry) : BaseNames (partitionBaseNames ptable) ptable := by
  intro name member
  obtain ⟨p, inTable, rfl⟩ := mem_partitionBaseNames.mp member
  exact ⟨p, inTable, cutName_length_le p.name⟩

/-- A variable of `getvar:all`: it has a short name, and only U_BOOT_VERSION among the values may be long. -/
structure AllVar (var : CStr) : Prop where
  short : var.length ≤ 34
  notEnv : ¬ AsksEnv var
  version : AsksVersion var → var = cstr "version-bootloader"

theorem allVar_partition (short : name.length ≤ 19) (size : var.length = 15)
    (named : namesPartition (var ++ name) = true) : AllVar (var ++ name) where
  short := by
    rw [List.length_append]
    omega
  notEnv := fun asks => absurd asks.1 (by simp [named])
  version := fun asks => absurd asks.1 (by simp [named])

theorem allVar_hasSlot (short : name.length ≤ 19) : AllVar (cstr "has-slot:" ++ name) where
  short := by
    have size : (cstr "has-slot:").length = 9 := by decide
    rw [List.length_append]
    omega
  notEnv := fun asks => asks.2 (cstr "has-slot:") (by decide) (List.prefix_append _ _)
  version := by
    rintro ⟨-, begins | begins⟩
    · exact absurd begins (not_prefix_of_incomparable (List.prefix_append (cstr "has-slot:") name) (by decide))
    · exact absurd begins (not_prefix_of_incomparable (List.prefix_append (cstr "has-slot:") name) (by decide))

theorem allVar_fixed (member : var ∈ fastbootCommonVar ++ [cstr "current-slot", cstr "slot-count"] ++
    slotVars) : AllVar var := by
  have all : ∀ var ∈ fastbootCommonVar ++ [cstr "current-slot", cstr "slot-count"] ++ slotVars,
      var.length ≤ 34 ∧ ¬ AsksEnv var ∧ (AsksVersion var → var = cstr "version-bootloader") := by decide
  obtain ⟨short, notEnv, version⟩ := all var member
  exact ⟨short, notEnv, version⟩

theorem strstr_append_self (needle rest : CStr) : (strstr needle (needle ++ rest)).isSome := by
  cases needle with
  | nil => cases rest <;> simp [strstr]
  | cons c needle =>
    have begins : (c :: needle).isPrefixOf (c :: (needle ++ rest)) = true :=
      List.isPrefixOf_iff_prefix.mpr (List.prefix_append (c :: needle) rest)
    rw [List.cons_append, strstr, if_pos begins]
    rfl

theorem allVar_of_mem (names : ∀ p ∈ v.ptable, p.name.length ≤ 19)
    (member : var ∈ v.allVars) : AllVar var := by
  simp only [VarSource.allVars, List.mem_append, List.mem_map] at member
  rcases member with ((common | ⟨p, inTable, rfl⟩) | ⟨p, inTable, rfl⟩) | slot
  · exact allVar_fixed (by simp [common])
  · refine allVar_partition (names p inTable) (by decide) ?_
    simp [namesPartition, strstr_append_self]
  · refine allVar_partition (names p inTable) (by decide) ?_
    simp [namesPartition, strstr_append_self]
  · split at slot
    · simp only [List.mem_append, List.mem_map] at slot
      rcases slot with (⟨name, isBase, rfl⟩ | current) | slot
      · obtain ⟨p, inTable, le⟩ := partitionBaseNames_le v.ptable name isBase
        exact allVar_hasSlot (le.trans (names p inTable))
      · exact allVar_fixed (by simp only [List.mem_append]; exact Or.inl (Or.inr current))
      · exact allVar_fixed (by simp only [List.mem_append]; exact Or.inr slot)
    · simp at slot

theorem snprintf_eq {dest text : CStr} {size : Nat} (fits : text.length < size) : snprintf dest text size = text := by
  rw [snprintf, if_neg (by omega), List.take_of_length_le (by omega)]

theorem snprintf_fits (text : CStr) {size : Nat} (room : 0 < size) :
    (snprintf [] text size).length + 1 ≤ size := by
  rw [snprintf, if_neg (by omega), List.length_take]
  omega

theorem envName_fits (cmd : CStr) : (Built.mk (envName cmd) 32).Fits :=
  (snprintf_fits (cstr "fastboot." ++ cmd) (by decide : 0 < 32 - 1)).trans (by decide : 31 ≤ 32)

/-- The response that `get_single_var` gets for the variable. -/
def infoLabel (var : CStr) : CStr := cstr "INFO" ++ var ++ cstr ":"

theorem infoLabel_length (var : CStr) : (infoLabel var).length = var.length + 5 := by
  have info : (cstr "INFO").length = 4 := by decide
  have colon : (cstr ":").length = 1 := by decide
  simp only [infoLabel, List.length_append, info, colon]
  omega

theorem infoReply_eq (v : VarSource) (short : var.length ≤ 34) :
    infoReply v var = (getSingleVar v var (infoLabel var)).2 := by
  have size : getvarArray = 64 := rfl
  have label := infoLabel_length var
  rw [infoReply, snprintf_eq (by omega), snprintf_eq (by change (infoLabel var).length < _; omega)]
  rfl

theorem infoReply_fits_iff (isVar : AllVar var) :
    (Built.mk (infoReply v var) getvarArray).Fits ↔
      (var = cstr "version-bootloader" → v.version.length ≤ 40) := by
  have short := isVar.short
  have label := infoLabel_length var
  rw [infoReply_eq v short, getSingleVar_fits_iff v var (by omega), room_iff_varFits (by omega)]
  constructor
  · rintro fits rfl
    have taken : (infoLabel (cstr "version-bootloader")).length = 23 := by decide
    have := fits.version (by decide)
    omega
  · intro bound
    refine ⟨fun asks => ?_, fun asks => absurd asks isVar.notEnv⟩
    obtain rfl := isVar.version asks
    have taken : (infoLabel (cstr "version-bootloader")).length = 23 := by decide
    have := bound rfl
    omega

theorem infoReply_marked (isVar : AllVar var) : Marked (infoReply v var) := by
  have short := isVar.short
  have label := infoLabel_length var
  rw [infoReply_eq v short]
  refine getSingleVar_marked v var (Or.inr (Or.inr ?_)) (by omega)
  rw [infoLabel, List.append_assoc]
  exact List.prefix_append _ _

/-- When `getvar:all` stays in its arrays. -/
structure AllFits (v : VarSource) : Prop where
  version : v.version.length ≤ 40
  slots : isSlot v.ptable = true → ∀ p ∈ v.ptable, p.name.length ≤ 15

theorem getvarStrings_all_fit_iff (names : ∀ p ∈ v.ptable, p.name.length ≤ 19)
    (all : (cstr "all").isPrefixOf cmd = true) :
    (∀ b ∈ getvarStrings v (some cmd), b.Fits) ↔ AllFits v := by
  rw [getvarStrings, if_pos all]
  simp only [List.mem_append, List.mem_flatMap, List.mem_singleton]
  constructor
  · intro fits
    refine ⟨?_, fun slots p inTable => ?_⟩
    · have listed : cstr "version-bootloader" ∈ v.allVars := by
        simp only [VarSource.allVars, List.mem_append]
        exact Or.inl (Or.inl (Or.inl (by decide)))
      have reply := fits ⟨infoReply v (cstr "version-bootloader"), getvarArray⟩
        (Or.inl (Or.inl ⟨_, listed, by simp⟩))
      exact (infoReply_fits_iff (allVar_of_mem names listed)).mp reply rfl
    · have copied := fits ⟨p.name, 16⟩ (Or.inl (Or.inr (by
        rw [if_pos slots]
        exact List.mem_append_left _ (List.mem_map.mpr ⟨p, inTable, rfl⟩))))
      exact Nat.le_of_succ_le_succ copied
  · rintro fits b ((⟨var, listed, built⟩ | copied) | rfl)
    · have isVar := allVar_of_mem names listed
      simp only [List.mem_cons, List.not_mem_nil, or_false] at built
      rcases built with rfl | rfl | rfl | rfl
      · exact snprintf_fits var (by decide : 0 < getvarArray)
      · exact snprintf_fits (infoLabel var) (by decide : 0 < getvarArray)
      · exact envName_fits _
      · exact (infoReply_fits_iff isVar).mpr (fun _ => fits.version)
    · split at copied
      · next slots =>
        rcases List.mem_append.mp copied with whole | base
        · obtain ⟨p, inTable, rfl⟩ := List.mem_map.mp whole
          exact Nat.succ_le_succ (fits.slots slots p inTable)
        · obtain ⟨name, isBase, rfl⟩ := List.mem_map.mp base
          obtain ⟨p, inTable, le⟩ := partitionBaseNames_le v.ptable name isBase
          exact Nat.succ_le_succ (le.trans (fits.slots slots p inTable))
      · simp at copied
    · decide

theorem getvarStrings_single_fit_iff (single : (cstr "all").isPrefixOf cmd = false) :
    (∀ b ∈ getvarStrings v (some cmd), b.Fits) ↔ VarFits v cmd 4 := by
  have okay : (cstr "OKAY").length = 4 := by decide
  have room := (getSingleVar_fits_iff v cmd (by omega : (cstr "OKAY").length ≤ 63)).trans
    (room_iff_varFits (by omega))
  rw [okay] at room
  rw [getvarStrings, if_neg (by simp [single]), ← room]
  simp only [List.mem_cons, List.not_mem_nil, or_false, forall_eq_or_imp, forall_eq]
  constructor
  · exact fun fits => fits.2.2
  · exact fun fits => ⟨by decide, envName_fits cmd, fits⟩

theorem getvarReplies_marked (names : ∀ p ∈ v.ptable, p.name.length ≤ 19) (arg : Option CStr) :
    ∀ reply ∈ getvarReplies v arg, Marked reply := by
  have fail : cstr "FAIL" <+: cstr "FAIL" := List.prefix_refl _
  intro reply sent
  cases arg with
  | none =>
    obtain rfl := List.mem_singleton.mp sent
    exact Or.inr (Or.inl (by decide))
  | some cmd =>
    rw [getvarReplies] at sent
    split at sent
    · rcases List.mem_append.mp sent with info | done
      · obtain ⟨var, listed, rfl⟩ := List.mem_map.mp info
        exact infoReply_marked (allVar_of_mem names listed)
      · obtain rfl := List.mem_singleton.mp done
        exact Or.inl (by decide)
    · obtain rfl := List.mem_singleton.mp sent
      split
      · exact getSingleVar_marked v cmd (Or.inl (List.prefix_refl _)) (by decide)
      · exact Or.inr (Or.inl fail)

/-- When the strings that `getvar` builds stay in their arrays. -/
def GetvarFits (v : VarSource) : Option CStr → Prop
  | none => True
  | some cmd => if (cstr "all").isPrefixOf cmd then AllFits v else VarFits v cmd 4

/-- `chars_left` counts one byte more than `response` has: the strings that `getvar` builds fit their arrays exactly
when U_BOOT_VERSION and the values in the environment leave a byte for the terminator and no name of a table with
slots is longer than 15 bytes. A reply has its marker in any case. -/
theorem getvar_builds_fit_iff (v : VarSource) (names : ∀ p ∈ v.ptable, p.name.length ≤ 19) (arg : Option CStr) :
    ((∀ b ∈ getvarStrings v arg, b.Fits) ∧ ∀ reply ∈ getvarReplies v arg, Marked reply) ↔ GetvarFits v arg := by
  rw [and_iff_left (getvarReplies_marked names arg)]
  cases arg with
  | none => simp [getvarStrings, GetvarFits]
  | some cmd =>
    rw [GetvarFits]
    split
    · next all => exact getvarStrings_all_fit_iff names all
    · next single => exact getvarStrings_single_fit_iff (Bool.eq_false_iff.mpr single)

theorem ptableOf_name_length {emmc : Bool} {lba : Nat} {parts : Nat → Option DiskPartition} {p : PtEntry}
    (member : p ∈ ptableOf emmc lba parts) : p.name.length ≤ 19 := by
  rcases List.mem_append.mp member with fixed | disk
  · have all : ∀ name ∈ [cstr "gpt", cstr "tos", cstr "all", cstr "bootloader"], name.length ≤ 19 := by decide
    exact all _ (List.mem_map_of_mem (f := PtEntry.name) fixed)
  · obtain ⟨k, info, rfl⟩ := mem_diskEntries disk
    exact List.length_take_le _ _

def slotParts : Nat → Option DiskPartition
  | 1 => some ⟨cstr "system_a", 65536, 8192⟩
  | 2 => some ⟨cstr "system_b", 73728, 8192⟩
  | _ => none

def slotSource : VarSource where
  env := fun _ => none
  ptable := ptableOf true 4194304 slotParts
  version := cstr "U-Boot 2017.03-imx_v2017.03"
  serial := some (0x1d2a, 0x68e4)
  blksz := 512
  eraseGrpSize := 1024

theorem slotSource_fits :
    (∀ b ∈ getvarStrings slotSource (some (cstr "all")), b.Fits) ∧
      ∀ reply ∈ getvarReplies slotSource (some (cstr "all")), Marked reply := by
  have short : ∀ p ∈ slotSource.ptable, p.name.length ≤ 15 := by decide
  exact (getvar_builds_fit_iff slotSource (fun p member => ptableOf_name_length member) (some (cstr "all"))).mpr
    ⟨by decide, fun _ => short⟩

/-- A value of 60 bytes is copied whole, and the terminator goes behind the array. -/
theorem envValue_overruns :
    let v : VarSource := { slotSource with env := setenv (fun _ => none) (cstr "fastboot.x") (List.replicate 60 97) }
    ⟨cstr "OKAY" ++ List.replicate 60 97, 64⟩ ∈ getvarStrings v (some (cstr "x")) ∧
      ∃ b ∈ getvarStrings v (some (cstr "x")), ¬ b.Fits := by
  decide

end UuuFastboot
