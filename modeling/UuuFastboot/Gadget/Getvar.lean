import UuuFastboot.Gadget.Session

namespace UuuFastboot

open Word CString Radix

def fastbootResponseLen : Nat := 64 + 1

/-- What `cb_getvar` reads: the environment, the table, U_BOOT_VERSION, the serial number where the board has one,
and the sizes that the block device and the card report. -/
structure VarSource where
  env : Env
  ptable : List PtEntry
  version : CStr
  serial : Option (Nat × Nat)
  blksz : Nat
  eraseGrpSize : Nat

/-- `fstype` of an entry, as the loader of the table sets it. -/
def PtEntry.fstype (p : PtEntry) : CStr :=
  if p.partitionIndex = 0 then if p.name = cstr "all" then cstr "device" else cstr "raw"
  else if p.name ∈ [cstr "system", cstr "userdata", cstr "device", cstr "cache"] then cstr "ext4"
  else cstr "raw"

/-- How a variable gets into the response: appended with `strncat`, printed behind it with `snprintf`, appended as an
error, or not known, which starts the response anew. -/
inductive VarText where
  | copied (text : CStr)
  | printed (text : CStr)
  | refused (text : CStr)
  | unknown

/-- `"0x%x"` -/
def hexValue (n : Nat) : CStr := cstr "0x" ++ hexText (w32 n)

/-- `get_serial` -/
def VarSource.serialno (v : VarSource) : VarText :=
  match v.serial with
  | some (high, low) => .copied (hexText8 (w32 high) ++ hexText8 (w32 low))
  | none => .refused (cstr "FAILValue not set")

/-- The variables that `get_single_var` compares its argument with, in the order of the comparisons. The last seven
are those of `is_slotvar`. -/
def VarSource.fixedVars (v : VarSource) : List (CStr × VarText) :=
  [(cstr "version-baseband", .copied (cstr "N/A")),
   (cstr "version-bootloader", .copied v.version),
   (cstr "bootloader-version", .copied v.version),
   (cstr "version", .copied (cstr "0.4")),
   (cstr "battery-voltage", .copied (cstr "0mV")),
   (cstr "battery-soc-ok", .copied (cstr "yes")),
   (cstr "variant", .copied (cstr "NXP i.MX")),
   (cstr "off-mode-charge", .copied (cstr "1")),
   (cstr "downloadsize", .printed (hexValue fastbootBufSize)),
   (cstr "max-download-size", .printed (hexValue fastbootBufSize)),
   (cstr "erase-block-size", .printed (hexValue (v.blksz * v.eraseGrpSize))),
   (cstr "logical-block-size", .printed (hexValue v.blksz)),
   (cstr "serialno", v.serialno),
   (cstr "product", .copied (cstr "NXP i.MX")),
   (cstr "secure", .copied (cstr "no")),
   (cstr "unlocked", .copied (cstr "no")),
   (cstr "has-slot:", .copied (cstr "no")),
   (cstr "slot-successful:", .copied (cstr "no")),
   (cstr "slot-count", .copied (cstr "no")),
   (cstr "slot-suffixes", .copied (cstr "no")),
   (cstr "current-slot", .copied (cstr "no")),
   (cstr "slot-unbootable:", .copied (cstr "no")),
   (cstr "slot-retry-count:", .copied (cstr "no"))]

/-- `strcmp_l1(name, cmd) == 0` for the first variable of the list. -/
def VarSource.fixedVar (v : VarSource) (cmd : CStr) : Option (CStr × VarText) :=
  v.fixedVars.find? (fun entry => entry.1.isPrefixOf cmd)

/-- `envstr`, an array of 32 bytes of which 31 are used. -/
def envName (cmd : CStr) : CStr := snprintf [] (cstr "fastboot." ++ cmd) (32 - 1)

/-- The branches of `get_single_var`. -/
def VarSource.lookup (v : VarSource) (cmd : CStr) : VarText :=
  match strstr (cstr "partition-size:") cmd with
  | some str =>
    match fastbootFlashFindPtn v.ptable (str.drop 15) with
    | none => .refused (cstr "Wrong partition name.")
    | some p => .printed (hexValue (p.length * v.blksz))
  | none =>
    match strstr (cstr "partition-type:") cmd with
    | some str =>
      match fastbootFlashFindPtn v.ptable (str.drop 15) with
      | none => .refused (cstr "Wrong partition name.")
      | some p => .copied p.fstype
    | none =>
      match v.fixedVar cmd with
      | some entry => entry.2
      | none =>
        match v.env (envName cmd) with
        | some s => .copied s
        | none => .unknown

/-- `get_single_var`: whether it returns 0, and the response. -/
def getSingleVar (v : VarSource) (cmd response : CStr) : Bool × CStr :=
  let charsLeft := fastbootResponseLen - response.length - 1
  match v.lookup cmd with
  | .copied text => (true, strncat response text charsLeft)
  | .printed text => (true, snprintfAt response text charsLeft)
  | .refused text => (false, strncat response text charsLeft)
  | .unknown => (false, snprintf response (cstr "FAILunknown variable:" ++ cmd) charsLeft)

/-- A string and the size of the array it is in. -/
structure Built where
  text : CStr
  size : Nat
  deriving DecidableEq

def Built.Fits (b : Built) : Prop := b.text.length + 1 ≤ b.size

instance Built.decidableFits (b : Built) : Decidable b.Fits := inferInstanceAs (Decidable (_ ≤ _))

/-- `response` and `var_name` of `cb_getvar` have this size. -/
def getvarArray : Nat := fastbootResponseLen - 1

def fastbootCommonVar : List CStr :=
  [cstr "version", cstr "version-bootloader", cstr "version-baseband", cstr "product", cstr "secure",
   cstr "max-download-size", cstr "erase-block-size", cstr "logical-block-size", cstr "unlocked",
   cstr "off-mode-charge", cstr "battery-voltage", cstr "variant", cstr "battery-soc-ok"]

def isSlot (ptable : List PtEntry) : Bool :=
  ptable.any (fun p => (strstr (cstr "_a") p.name).isSome || (strstr (cstr "_b") p.name).isSome)

/-- The string in front of the first occurrence of `suffix`. -/
def cutAt (suffix name : CStr) : Option CStr :=
  (strstr suffix name).map (fun found => name.take (name.length - found.length))

/-- The loop body of `get_partition_base_name`. -/
def addBaseName (names : List CStr) (p : PtEntry) : List CStr :=
  match cutAt (cstr "_a") p.name with
  | some base => if base ∈ names then names else names ++ [base]
  | none =>
    match cutAt (cstr "_b") p.name with
    | some base => if base ∈ names then names else names ++ [base]
    | none => names ++ [p.name]

/-- `get_partition_base_name` -/
def partitionBaseNames (ptable : List PtEntry) : List CStr := ptable.foldl addBaseName []

/-- The variables of a slot, which `getvar:all` asks for both slots. -/
def slotVars : List CStr :=
  [cstr "slot-successful:", cstr "slot-unbootable:", cstr "slot-retry-count:"].flatMap
    (fun var => [var ++ cstr "a", var ++ cstr "b"])

/-- The variables that `getvar:all` asks for, in turn. -/
def VarSource.allVars (v : VarSource) : List CStr :=
  fastbootCommonVar ++ v.ptable.map (fun p => cstr "partition-type:" ++ p.name) ++
    v.ptable.map (fun p => cstr "partition-size:" ++ p.name) ++
    if isSlot v.ptable then
      (partitionBaseNames v.ptable).map (fun name => cstr "has-slot:" ++ name) ++
        [cstr "current-slot", cstr "slot-count"] ++ slotVars
    else []

/-- One of the responses of `getvar:all`: the name of the variable goes into the response and into `var_name`. -/
def infoReply (v : VarSource) (var : CStr) : CStr :=
  (getSingleVar v (snprintf [] var getvarArray) (snprintf [] (cstr "INFO" ++ var ++ cstr ":") getvarArray)).2

/-- The replies of `cb_getvar` to the argument of a command. -/
def getvarReplies (v : VarSource) : Option CStr → List CStr
  | none => [cstr "FAILmissing var"]
  | some cmd =>
    if (cstr "all").isPrefixOf cmd then v.allVars.map (infoReply v) ++ [cstr "OKAYDone!"]
    else
      let out := getSingleVar v cmd (cstr "OKAY")
      [if out.1 then out.2 else cstr "FAIL"]

/-- The strings that `cb_getvar` and the functions it calls put into arrays. The name in the environment is listed for
every variable, also where it is not looked up. -/
def getvarStrings (v : VarSource) : Option CStr → List Built
  | none => []
  | some cmd =>
    if (cstr "all").isPrefixOf cmd then
      v.allVars.flatMap (fun var =>
        [⟨snprintf [] var getvarArray, getvarArray⟩,
         ⟨snprintf [] (cstr "INFO" ++ var ++ cstr ":") getvarArray, getvarArray⟩,
         ⟨envName (snprintf [] var getvarArray), 32⟩,
         ⟨infoReply v var, getvarArray⟩]) ++
        (if isSlot v.ptable then
          v.ptable.map (fun p => ⟨p.name, 16⟩) ++ (partitionBaseNames v.ptable).map (fun name => ⟨name, 16⟩)
        else []) ++ [⟨cstr "OKAYDone!", getvarArray⟩]
    else [⟨cstr "OKAY", getvarArray⟩, ⟨envName cmd, 32⟩, ⟨(getSingleVar v cmd (cstr "OKAY")).2, getvarArray⟩]

end UuuFastboot
