/-
# Devices that are read back

The lines that `Device_data::buildcfstr` writes are run through the splitter and through
`CoreDevice::applycf`.  Every line of a node changes one setting (`step_field`), so the lines of
a device make a device again (`run_device`), and `devicesReadBack_iff` says for which devices it
is the same one.
-/
import Tacppd.DeviceConfig

namespace Tacppd

/-! ## The lines of a device -/

/-- What a line of a device is about. -/
inductive DeviceField
  | descr
  | tacKey
  | community
  | loginstring
  | pwdstring
  | defAuthor
  | module_
  | delay
  | counter
  | snmppolling
  | icmppolling
  | shutdown
  deriving DecidableEq

namespace DeviceField

/-- The keyword in the line. -/
def word : DeviceField → Bytes
  | descr => str "description"
  | tacKey => str "tacacskey"
  | community => str "snmpcommunity"
  | loginstring => str "loginstring"
  | pwdstring => str "pwdstring"
  | defAuthor => str "defauthorization"
  | module_ => str "module"
  | delay => str "polldelay"
  | counter => str "inttrfcount"
  | snmppolling => str "snmppolling"
  | icmppolling => str "icmppolling"
  | shutdown => str "shutdown"

/-- What stands behind it. -/
def value (d : DeviceConf) : DeviceField → Bytes
  | descr => 39 :: d.descr ++ [39]
  | tacKey => 39 :: d.tacKey ++ [39]
  | community => 39 :: d.community ++ [39]
  | loginstring => 39 :: d.loginstring ++ [39]
  | pwdstring => 39 :: d.pwdstring ++ [39]
  | defAuthor => yesNo d.defAuthor
  | module_ => d.module_
  | delay => decimal d.delay
  | counter => yesNo d.counter
  | snmppolling => yesNo d.snmppolling
  | icmppolling => yesNo d.icmppolling
  | shutdown => yesNo d.shutdown

/-- The place of its command in the node. -/
def place : DeviceField → ℕ
  | descr => 2
  | tacKey => 3
  | community => 4
  | loginstring => 5
  | pwdstring => 6
  | defAuthor => 7
  | module_ => 8
  | delay => 9
  | counter => 12
  | snmppolling => 10
  | icmppolling => 11
  | shutdown => 13

/-- Its command. -/
def cmd : DeviceField → DeviceCmd
  | descr => .confDeviceDescr
  | tacKey => .confDeviceTKey
  | community => .confDeviceSnmpComm
  | loginstring => .confDeviceLogin
  | pwdstring => .confDevicePwd
  | defAuthor => .confDeviceDauth
  | module_ => .confDeviceModule
  | delay => .confDevicePollDelay
  | counter => .confDeviceIntrfCount
  | snmppolling => .confDeviceSnmpPolling
  | icmppolling => .confDeviceIcmpPolling
  | shutdown => .confDeviceShut

/-- The keyword and the parameter in the mask. -/
def key : DeviceField → Bytes
  | descr => str "DEScription"
  | tacKey => str "Tacacskey"
  | community => str "SNMPCommunity"
  | loginstring => str "LOginstring"
  | pwdstring => str "PWdstring"
  | defAuthor => str "DEFauthorization"
  | module_ => str "MOdule"
  | delay => str "POlldelay"
  | counter => str "INttrfcount"
  | snmppolling => str "SNMPPolling"
  | icmppolling => str "ICmppolling"
  | shutdown => str "SHutdown"

def mask : DeviceField → ParamMask
  | descr => .str 0 (some 255)
  | tacKey | community | loginstring | pwdstring | module_ => .str 2 (some 30)
  | delay => .int 1 (some 300)
  | defAuthor | counter | snmppolling | icmppolling | shutdown => yesNoMask

/-- What its command does to the device. -/
def set [LongWidth] (ld : DLoad) (f : DeviceField) (p : Bytes) (d : DeviceConf) : DeviceConf :=
  match f with
  | descr => { d with descr := p }
  | tacKey => { d with tacKey := p }
  | community => { d with community := p }
  | loginstring => { d with loginstring := p }
  | pwdstring => { d with pwdstring := p }
  | defAuthor => { d with defAuthor := saysYes p }
  | module_ => { d with module_ := if ld.load p ≠ [] then cstr d.module_ else p }
  | delay => { d with delay := atoi p }
  | counter => { d with counter := saysYes p }
  | snmppolling => { d with snmppolling := saysYes p }
  | icmppolling => { d with icmppolling := saysYes p }
  | shutdown => { d with shutdown := saysYes p }

/-- Its line for a device. -/
def line (d : DeviceConf) (f : DeviceField) : Bytes := keyLine 2 f.word (f.value d)

/-- What is read of its line. -/
def read [LongWidth] (d : DeviceConf) (f : DeviceField) : Option Bytes :=
  lineParam f.mask (2 + f.word.length + 1) (f.value d)

end DeviceField

/-- The fields in the order of their lines. -/
def deviceFields : List DeviceField :=
  [.descr, .tacKey, .community, .loginstring, .pwdstring, .defAuthor, .module_, .delay, .counter,
    .snmppolling, .icmppolling, .shutdown]

/-- The lines of a device. -/
def DeviceConf.lines (d : DeviceConf) : List Bytes :=
  keyLine 1 (str "device") d.hostaddr.hname :: deviceFields.map (DeviceField.line d) ++ [exitLine]

theorem DeviceConf.buildcfstr_eq_lines (d : DeviceConf) :
    d.buildcfstr ++ [10] = d.lines.flatMap (· ++ [10]) := by
  have hquoted : str "  description '" = 32 :: 32 :: str "description" ++ [32, 39] ∧
      str "  tacacskey '" = 32 :: 32 :: str "tacacskey" ++ [32, 39] ∧
      str "  snmpcommunity '" = 32 :: 32 :: str "snmpcommunity" ++ [32, 39] ∧
      str "  loginstring '" = 32 :: 32 :: str "loginstring" ++ [32, 39] ∧
      str "  pwdstring '" = 32 :: 32 :: str "pwdstring" ++ [32, 39] := by decide +kernel
  have hplain : str " device " = 32 :: str "device" ++ [32] ∧
      str "  defauthorization " = 32 :: 32 :: str "defauthorization" ++ [32] ∧
      str "  module " = 32 :: 32 :: str "module" ++ [32] ∧
      str "  polldelay " = 32 :: 32 :: str "polldelay" ++ [32] ∧
      str "  inttrfcount " = 32 :: 32 :: str "inttrfcount" ++ [32] ∧
      str "  snmppolling " = 32 :: 32 :: str "snmppolling" ++ [32] ∧
      str "  icmppolling " = 32 :: 32 :: str "icmppolling" ++ [32] ∧
      str "  shutdown " = 32 :: 32 :: str "shutdown" ++ [32] := by decide +kernel
  unfold DeviceConf.buildcfstr DeviceConf.lines deviceFields
  simp [hquoted, hplain, DeviceField.line, DeviceField.word, DeviceField.value, keyLine, exitLine]

/-! ## The steps over the lines -/

section

variable {env : AcctEnv} {ld : DLoad} {nas nas' rs : List DeviceConf} {d x : DeviceConf}
  {ip p u : Bytes}

@[simp] theorem DeviceField.hostaddr_set [LongWidth] (f : DeviceField) :
    (f.set ld p d).hostaddr = d.hostaddr := by
  cases f <;> rfl

theorem DeviceField.ipa_set [LongWidth] (f : DeviceField) (d : DeviceConf) :
    (f.set ld p d).ipa = d.ipa :=
  congrArg IpAddr.ipa f.hostaddr_set

/-- A module changes the device as the other commands do. -/
theorem applyModule_eq [LongWidth] (nas : List DeviceConf) (ip m : Bytes) :
    applyModule ld nas ip m = modifyDevice nas ip (DeviceField.module_.set ld m) := by
  have hlook : Keyed.look DeviceConf.ipa (modifyModule nas ip m) ip =
      (Keyed.look DeviceConf.ipa nas ip).map fun d => { d with module_ := m } := by
    have hipa : ∀ d : DeviceConf, DeviceConf.ipa { d with module_ := m } = d.ipa := fun _ => rfl
    exact (Keyed.look_alter hipa ip).trans (if_pos rfl)
  unfold applyModule loadDevice getmodulename
  dsimp only
  rw [hlook]
  cases hd : Keyed.look DeviceConf.ipa nas ip with
  | none =>
    rw [Option.map_none, if_neg (by simp), modifyModule, modifyDevice, modifyDevice,
      Keyed.alter_of_look_eq_none hd, Keyed.alter_of_look_eq_none hd]
  | some d =>
    rw [Option.map_some]
    dsimp only
    split
    · next hload =>
      have hipa : ∀ d : DeviceConf, DeviceConf.ipa { d with module_ := m } = d.ipa := fun _ => rfl
      rw [modifyModule, modifyModule, modifyDevice, modifyDevice, Keyed.alter_alter hipa]
      apply Keyed.alter_congr
      intro x hx
      obtain rfl := Option.some.inj (hd.symm.trans hx)
      simp [DeviceField.set, hload]
    · next hload =>
      apply Keyed.alter_congr
      intro x hx
      have hnil : ld.load m = [] := not_not.mp hload
      simp [DeviceField.set, hnil]

theorem applyInner_cmd [LongWidth] (f : DeviceField) (nas : List DeviceConf) (ip p : Bytes) :
    applyInner ld nas ip f.cmd p = modifyDevice nas ip (f.set ld p) := by
  cases f
  case module_ => exact applyModule_eq nas ip p
  all_goals rfl

theorem applyDevice_cmd [LongWidth] (f : DeviceField) (hp : (0 : UInt8) ∉ p)
    (hu : (0 : UInt8) ∉ u) :
    applyDevice env ld f.cmd [p] [u] nas =
      some (modifyDevice nas (fill env u) (f.set ld p)) := by
  have hinner : applyDevice env ld f.cmd [p] [u] nas =
      some (applyInner ld nas (IpAddr.make env (cstr u)).ipa f.cmd (cstr p)) := by
    cases f <;> rfl
  rw [hinner, cstr_eq_self hp, cstr_eq_self hu, applyInner_cmd]
  rfl

theorem mem_deviceFields (f : DeviceField) : f ∈ deviceFields := by
  cases f <;> decide

/-- The keyword of a field is one that the commands of a device can have, and no other one of them
takes it. -/
theorem deviceFields_words : ∀ f ∈ deviceFields, Keyword f.word ∧
    matchNstrict (f.word ++ [32]) f.key = true ∧
    (deviceInner.take f.place ++ deviceInner.drop (f.place + 1)).all
      (fun c => refuses (f.word ++ [32]) c.1) = true := by
  decide +kernel

/-- The line of a field. -/
theorem step_field [LongWidth] (f : DeviceField) (d : DeviceConf) (hu : (0 : UInt8) ∉ u)
    (nas : List DeviceConf) :
    (deviceSection env ld).step (some [u], nas) (f.line d) =
      (f.read d).map fun p => (some [u], modifyDevice nas (fill env u) (f.set ld p)) := by
  have hS : deviceInner = deviceInner.take f.place ++
      ([.key f.key, .param f.mask], some f.cmd) :: deviceInner.drop (f.place + 1) := by
    cases f <;> rfl
  have hne : f.cmd ≠ (deviceSection env ld).node := by
    cases f <;> exact DeviceCmd.noConfusion
  obtain ⟨hword, hkey, hrefuse⟩ := deviceFields_words f (mem_deviceFields f)
  have hstep := @ConfSection.step_inner _ _ _ (deviceSection env ld) nas f.cmd [u] f.word f.key
    f.mask _ _ _ hS hne hword hkey hrefuse (f.value d)
  rw [DeviceField.line, hstep, DeviceField.read]
  cases hread : lineParam f.mask (2 + f.word.length + 1) (f.value d) with
  | none => rfl
  | some p =>
    show ((applyDevice env ld f.cmd [p] [u] nas).map fun s => (some [u], s)) = _
    rw [applyDevice_cmd f (of_lineParam hread).1 hu]
    rfl

/-- What is read of the line of the address. -/
def DeviceConf.readAddr [LongWidth] (d : DeviceConf) : Option Bytes :=
  lineParam .ip (1 + (str "device").length + 1) d.hostaddr.hname

theorem step_device [LongWidth] (d : DeviceConf) (nas : List DeviceConf) :
    (deviceSection env ld).step (none, nas) (keyLine 1 (str "device") d.hostaddr.hname) =
      d.readAddr.map fun u => (some [u], addDevice nas (IpAddr.make env u)) := by
  have hstep := @ConfSection.step_enter _ _ _ (deviceSection env ld) nas (str "device")
    (str "DEVice") .ip (deviceConfig.take 2) [] _ rfl (by decide +kernel) (by decide +kernel)
    (by decide +kernel) d.hostaddr.hname
  rw [hstep, DeviceConf.readAddr]
  cases hread : lineParam .ip (1 + (str "device").length + 1) d.hostaddr.hname with
  | none => rfl
  | some u =>
    show some (some [u], addDevice nas (IpAddr.make env (cstr u))) = _
    rw [cstr_eq_self (of_lineParam hread).1]
    rfl

/-- The commands of some fields, on the device with the address. -/
def applyFields [LongWidth] (ld : DLoad) (ip : Bytes) (d : DeviceConf) (fs : List DeviceField)
    (nas : List DeviceConf) : Option (List DeviceConf) :=
  fs.foldlM (fun nas f => (f.read d).map fun p => modifyDevice nas ip (f.set ld p)) nas

/-- The same, on a device of its own. -/
def setFields [LongWidth] (ld : DLoad) (d : DeviceConf) (fs : List DeviceField) (x : DeviceConf) :
    Option DeviceConf :=
  fs.foldlM (fun x f => (f.read d).map fun p => f.set ld p x) x

theorem run_fields [LongWidth] (fs : List DeviceField) (hu : (0 : UInt8) ∉ u)
    (nas : List DeviceConf) :
    (fs.map (DeviceField.line d)).foldlM (deviceSection env ld).step (some [u], nas) =
      (applyFields ld (fill env u) d fs nas).map fun nas => (some [u], nas) := by
  induction fs generalizing nas with
  | nil => rfl
  | cons f fs ih =>
    rw [List.map_cons, List.foldlM_cons, step_field f d hu, applyFields, List.foldlM_cons]
    cases f.read d with
    | none => rfl
    | some p => exact ih _

/-- **The lines of a device.** -/
theorem run_device [LongWidth] (d : DeviceConf) (nas : List DeviceConf) :
    d.lines.foldlM (deviceSection env ld).step (none, nas) =
      (d.readAddr.bind fun u => applyFields ld (fill env u) d deviceFields
        (addDevice nas (IpAddr.make env u))).map fun nas => (none, nas) := by
  rw [DeviceConf.lines, List.cons_append, List.foldlM_cons, step_device]
  cases hread : d.readAddr with
  | none => rfl
  | some u =>
    have hu := (of_lineParam hread).1
    show (deviceFields.map (DeviceField.line d) ++ [exitLine]).foldlM
      (deviceSection env ld).step (some [u], addDevice nas (IpAddr.make env u)) = _
    rw [List.foldlM_append, run_fields deviceFields hu, Option.bind_some]
    cases applyFields ld (fill env u) d deviceFields (addDevice nas (IpAddr.make env u)) with
    | none => rfl
    | some nas' =>
      simp only [Option.map_some, Option.bind_eq_bind, Option.bind_some, List.foldlM_cons]
      rw [ConfSection.step_exit rfl]
      rfl

theorem length_applyFields [LongWidth] {fs : List DeviceField}
    (h : applyFields ld ip d fs nas = some nas') : nas'.length = nas.length := by
  apply @Records.foldlM_invariant _ _ _ (fun s => s.length = nas.length) fs _ nas nas' rfl h
  intro s s' f _ hs hs'
  obtain ⟨p, -, rfl⟩ := Option.map_eq_some_iff.mp hs'
  rw [modifyDevice, Keyed.length_alter, hs]

/-- The device at the end is changed as on its own. -/
theorem applyFields_concat [LongWidth] (hrs : ∀ y ∈ rs, y.ipa ≠ x.ipa) (fs : List DeviceField) :
    applyFields ld x.ipa d fs (rs ++ [x]) = (setFields ld d fs x).map fun x => rs ++ [x] := by
  have hnone : Keyed.look DeviceConf.ipa rs x.ipa = none := Keyed.look_eq_none_iff.mpr hrs
  induction fs generalizing x with
  | nil => rfl
  | cons f fs ih =>
    rw [applyFields, setFields, List.foldlM_cons, List.foldlM_cons]
    cases f.read d with
    | none => rfl
    | some p =>
      have hipa : (f.set ld p x).ipa = x.ipa := f.ipa_set x
      have halter : modifyDevice (rs ++ [x]) x.ipa (f.set ld p) = rs ++ [f.set ld p x] :=
        Keyed.alter_concat hnone rfl _
      show applyFields ld x.ipa d fs (modifyDevice (rs ++ [x]) x.ipa (f.set ld p)) = _
      rw [halter, ← hipa]
      apply ih
      · rwa [hipa]
      · rwa [hipa]

/-! ## What a device is read as -/

/-- A device that the file can hold. -/
structure DeviceConf.Storable [LongWidth] (env : AcctEnv) (ld : DLoad) (d : DeviceConf) : Prop where
  word : PlainWord d.hostaddr.hname
  line : (10 : UInt8) ∉ d.hostaddr.hname
  isIp : isIp d.hostaddr.hname = some true
  addr : fill env d.hostaddr.hname = d.ipa
  descr : QuotedText 0 255 d.descr
  tacKey : QuotedText 2 30 d.tacKey
  community : QuotedText 2 30 d.community
  loginstring : QuotedText 2 30 d.loginstring
  pwdstring : QuotedText 2 30 d.pwdstring
  module_ : PlainText 2 30 d.module_
  loads : ld.load d.module_ = [] ∨ d.module_ = str "none.so"
  delay : 1 ≤ d.delay ∧ d.delay ≤ 300

/-- The texts of a device have no newline. -/
structure DeviceConf.OneLine (d : DeviceConf) : Prop where
  hname : (10 : UInt8) ∉ d.hostaddr.hname
  descr : (10 : UInt8) ∉ d.descr
  tacKey : (10 : UInt8) ∉ d.tacKey
  community : (10 : UInt8) ∉ d.community
  loginstring : (10 : UInt8) ∉ d.loginstring
  pwdstring : (10 : UInt8) ∉ d.pwdstring
  module_ : (10 : UInt8) ∉ d.module_

theorem DeviceConf.Storable.oneLine [LongWidth] (h : d.Storable env ld) : d.OneLine :=
  ⟨h.line, h.descr.clean.2, h.tacKey.clean.2, h.community.clean.2, h.loginstring.clean.2,
    h.pwdstring.clean.2, h.module_.clean.2⟩

/-- The device that the lines make. -/
def readDevice [LongWidth] (env : AcctEnv) (ld : DLoad) (d : DeviceConf) : Option DeviceConf :=
  d.readAddr.bind fun u => setFields ld d deviceFields (.new (IpAddr.make env u))

theorem IpAddr.length_hname (h : IpAddr) : h.hname.length ≤ 98 := by
  rw [← h.fits]
  exact List.length_take_le _ _

theorem IpAddr.zero_not_mem (h : IpAddr) : (0 : UInt8) ∉ h.hname := by
  rw [← h.fits]
  intro h0
  exact zero_not_mem_cstr _ (List.mem_of_mem_take h0)

theorem IpAddr.ext_iff {h h' : IpAddr} : h = h' ↔ h.hname = h'.hname ∧ h.ipa = h'.ipa := by
  cases h
  cases h'
  simp

/-- The address comes back. -/
theorem readAddr_iff [LongWidth] (d : DeviceConf) :
    (∃ u, d.readAddr = some u ∧ IpAddr.make env u = d.hostaddr) ↔
      PlainWord d.hostaddr.hname ∧ isIp d.hostaddr.hname = some true ∧
        fill env d.hostaddr.hname = d.ipa := by
  have hlen := d.hostaddr.length_hname
  have hplain := @lineParam_plain_iff (t := d.hostaddr.hname) (n := 1 + (str "device").length + 1)
    _ .ip (fun _ => by
      have hword : (str "device").length = 6 := by simp [str]
      omega)
  constructor
  · rintro ⟨u, hu, hmake⟩
    obtain ⟨hname, hipa⟩ := IpAddr.ext_iff.mp hmake
    have hfits : snprintf 99 u = u :=
      snprintf_eq_self (of_lineParam hu).1 ((length_of_lineParam hu).trans hlen)
    obtain rfl : u = d.hostaddr.hname := hfits.symm.trans hname
    obtain ⟨hword, -, hisIp⟩ := hplain.mp hu
    exact ⟨hword, hisIp, hipa⟩
  · rintro ⟨hword, hisIp, hipa⟩
    exact ⟨_, hplain.mpr ⟨hword, d.hostaddr.zero_not_mem, hisIp⟩,
      IpAddr.ext_iff.mpr ⟨d.hostaddr.fits, hipa⟩⟩

/-- The two answers are words of a line, and are read as they are meant. -/
structure AnswerWord [LongWidth] (b : Bool) : Prop where
  word : PlainWord (yesNo b)
  zero : (0 : UInt8) ∉ yesNo b
  ten : (10 : UInt8) ∉ yesNo b
  mask : isCorrespondW yesNoMask (yesNo b) = some true
  len : (yesNo b).length ≤ 3
  means : saysYes (yesNo b) = b

theorem answerWord [LongWidth] (b : Bool) : AnswerWord b := by
  have hall : ∀ b, PlainWord (yesNo b) ∧ (0 : UInt8) ∉ yesNo b ∧ (10 : UInt8) ∉ yesNo b ∧
      [str "Yes|No", str "No"].any (matchNstrict (yesNo b)) = true ∧ (yesNo b).length ≤ 3 ∧
      saysYes (yesNo b) = b := by decide +kernel
  obtain ⟨hword, hzero, hten, hmask, hlen, hmeans⟩ := hall b
  exact ⟨hword, hzero, hten, congrArg some hmask, hlen, hmeans⟩

theorem lineParam_yesNo [LongWidth] (b : Bool) {n : ℕ} (hn : n ≤ 200) :
    lineParam yesNoMask n (yesNo b) = some (yesNo b) := by
  have hanswer := answerWord b
  have hlen := hanswer.len
  exact (lineParam_plain_iff fun _ => by omega).mpr ⟨hanswer.word, hanswer.zero, hanswer.mask⟩

/-- The longest keyword is `defauthorization`. -/
theorem DeviceField.length_word_le (f : DeviceField) : f.word.length ≤ 16 := by
  cases f <;> simp [DeviceField.word, str]

/-- What all fields together make of a new device. -/
theorem foldl_set [LongWidth] (v : DeviceField → Bytes) (h : IpAddr) :
    deviceFields.foldl (fun x f => f.set ld (v f) x) (.new h) =
      { hostaddr := h
        descr := v .descr
        tacKey := v .tacKey
        community := v .community
        loginstring := v .loginstring
        pwdstring := v .pwdstring
        defAuthor := saysYes (v .defAuthor)
        module_ := if ld.load (v .module_) ≠ [] then str "none.so" else v .module_
        delay := atoi (v .delay)
        counter := saysYes (v .counter)
        snmppolling := saysYes (v .snmppolling)
        icmppolling := saysYes (v .icmppolling)
        shutdown := saysYes (v .shutdown) } := by
  have hcstr : cstr (str "none.so") = str "none.so" := by simp [cstr, str]
  simp only [deviceFields, List.foldl_cons, List.foldl_nil, DeviceField.set, DeviceConf.new, hcstr]

theorem read_delay [LongWidth] (h : 1 ≤ d.delay ∧ d.delay ≤ 300) :
    DeviceField.delay.read d = some (decimal d.delay) := by
  have hint : IntNumber d.delay := by
    unfold IntNumber
    omega
  have hlen := DeviceField.delay.length_word_le
  have hparam := lineParam_decimal hint 1 (some 300)
    (show 2 + DeviceField.delay.word.length + 1 ≤ 200 by omega)
  rw [DeviceField.read]
  apply hparam.trans
  rw [if_pos]
  simp
  omega

theorem of_read_delay [LongWidth] {t : Bytes} (h : DeviceField.delay.read d = some t) :
    1 ≤ atoi t ∧ atoi t ≤ 300 := by
  have hmask := (oneParam_eq_some_iff.mp h).2
  simp [DeviceField.mask, isCorrespondW] at hmask
  omega

theorem read_quoted_iff [LongWidth] {f : DeviceField} {min max : ℕ} {t : Bytes}
    (hmask : f.mask = .str min (some max)) (hvalue : f.value d = 39 :: t ++ [39])
    (hmax : max ≤ 277) (ht : (10 : UInt8) ∉ t) :
    f.read d = some t ↔ QuotedText min max t := by
  have hlen := f.length_word_le
  rw [DeviceField.read, hmask, hvalue]
  exact lineParam_quotedText_iff (by omega) ht

theorem read_module_iff [LongWidth] (hd : (10 : UInt8) ∉ d.module_) :
    DeviceField.module_.read d = some d.module_ ↔ PlainText 2 30 d.module_ := by
  have hlen := DeviceField.module_.length_word_le
  exact lineParam_plainText_iff (by omega) hd

/-- The quoted texts of a device can be held if and only if they are read. -/
theorem read_texts_iff [LongWidth] (hd : d.OneLine) :
    (DeviceField.descr.read d = some d.descr ↔ QuotedText 0 255 d.descr) ∧
      (DeviceField.tacKey.read d = some d.tacKey ↔ QuotedText 2 30 d.tacKey) ∧
      (DeviceField.community.read d = some d.community ↔ QuotedText 2 30 d.community) ∧
      (DeviceField.loginstring.read d = some d.loginstring ↔ QuotedText 2 30 d.loginstring) ∧
      (DeviceField.pwdstring.read d = some d.pwdstring ↔ QuotedText 2 30 d.pwdstring) :=
  ⟨read_quoted_iff rfl rfl (by decide) hd.descr, read_quoted_iff rfl rfl (by decide) hd.tacKey,
    read_quoted_iff rfl rfl (by decide) hd.community,
    read_quoted_iff rfl rfl (by decide) hd.loginstring,
    read_quoted_iff rfl rfl (by decide) hd.pwdstring⟩

/-- The parameter that stands in the line of a field. -/
def DeviceField.text (d : DeviceConf) : DeviceField → Bytes
  | descr => d.descr
  | tacKey => d.tacKey
  | community => d.community
  | loginstring => d.loginstring
  | pwdstring => d.pwdstring
  | defAuthor => yesNo d.defAuthor
  | module_ => d.module_
  | delay => decimal d.delay
  | counter => yesNo d.counter
  | snmppolling => yesNo d.snmppolling
  | icmppolling => yesNo d.icmppolling
  | shutdown => yesNo d.shutdown

theorem DeviceConf.Storable.read [LongWidth] (h : d.Storable env ld) (f : DeviceField) :
    f.read d = some (f.text d) := by
  obtain ⟨hdescr, htacKey, hcommunity, hlogin, hpwd⟩ := read_texts_iff h.oneLine
  have hlen : 2 + f.word.length + 1 ≤ 200 := by
    have hword := f.length_word_le
    omega
  cases f with
  | descr => exact hdescr.mpr h.descr
  | tacKey => exact htacKey.mpr h.tacKey
  | community => exact hcommunity.mpr h.community
  | loginstring => exact hlogin.mpr h.loginstring
  | pwdstring => exact hpwd.mpr h.pwdstring
  | defAuthor => exact lineParam_yesNo d.defAuthor hlen
  | module_ => exact (read_module_iff h.oneLine.module_).mpr h.module_
  | delay => exact read_delay h.delay
  | counter => exact lineParam_yesNo d.counter hlen
  | snmppolling => exact lineParam_yesNo d.snmppolling hlen
  | icmppolling => exact lineParam_yesNo d.icmppolling hlen
  | shutdown => exact lineParam_yesNo d.shutdown hlen

/-- **A device is read as it is** exactly when the file can hold it. -/
theorem readDevice_eq_self_iff [LongWidth] (hd : d.OneLine) :
    readDevice env ld d = some d ↔ d.Storable env ld := by
  rw [readDevice, Option.bind_eq_some_iff]
  simp only [setFields, Records.foldlM_reads_eq_some_iff, foldl_set]
  constructor
  · rintro ⟨u, hu, hall, heq⟩
    have hread : ∀ f ∈ deviceFields, ∀ t, (f.read d).getD default = t → f.read d = some t := by
      rintro f hf _ rfl
      obtain ⟨t, ht⟩ := Option.isSome_iff_exists.mp (hall f hf)
      rw [ht, Option.getD_some]
    obtain ⟨hword, hisIp, haddr⟩ :=
      (readAddr_iff d).mp ⟨u, hu, congrArg DeviceConf.hostaddr heq⟩
    obtain ⟨hdescr, htacKey, hcommunity, hlogin, hpwd⟩ := read_texts_iff hd
    have hdelay := of_read_delay (hread .delay (by decide) _ rfl)
    have hdelay' : atoi _ = d.delay := congrArg DeviceConf.delay heq
    rw [hdelay'] at hdelay
    have hmodule : PlainText 2 30 d.module_ ∧
        (ld.load d.module_ = [] ∨ d.module_ = str "none.so") := by
      have hmod := congrArg DeviceConf.module_ heq
      dsimp only at hmod
      split at hmod
      · rw [← hmod]
        refine ⟨⟨?_, ?_, ?_, ?_⟩, .inr rfl⟩
        all_goals decide +kernel
      · next hload =>
        rw [hmod, not_not] at hload
        exact ⟨(read_module_iff hd.module_).mp (hread .module_ (by decide) _ hmod), .inl hload⟩
    exact {
      word := hword
      line := hd.hname
      isIp := hisIp
      addr := haddr
      descr := hdescr.mp (hread .descr (by decide) _ (congrArg DeviceConf.descr heq))
      tacKey := htacKey.mp (hread .tacKey (by decide) _ (congrArg DeviceConf.tacKey heq))
      community := hcommunity.mp
        (hread .community (by decide) _ (congrArg DeviceConf.community heq))
      loginstring := hlogin.mp
        (hread .loginstring (by decide) _ (congrArg DeviceConf.loginstring heq))
      pwdstring := hpwd.mp (hread .pwdstring (by decide) _ (congrArg DeviceConf.pwdstring heq))
      module_ := hmodule.1
      loads := hmodule.2
      delay := hdelay }
  · intro h
    obtain ⟨u, hu, hmake⟩ := (readAddr_iff d).mpr ⟨h.word, h.isIp, h.addr⟩
    refine ⟨u, hu, fun f _ => by rw [h.read f]; rfl, ?_⟩
    have hmodule : (if ld.load d.module_ ≠ [] then str "none.so" else d.module_) = d.module_ := by
      rcases h.loads with hload | hnone
      · rw [if_neg (not_not.mpr hload)]
      · rw [hnone, ite_self]
    have hint : IntNumber d.delay := by
      have hdelay := h.delay
      unfold IntNumber
      omega
    have hatoi : atoi (decimal d.delay) = d.delay := atoi_toString hint
    simp only [h.read, Option.getD_some, DeviceField.text, (answerWord _).means, hmodule, hatoi,
      hmake]

/-! ## The whole text -/

/-- What a command can do. -/
theorem applyDevice_cases [LongWidth] {cmdname : DeviceCmd} {params up : List Bytes}
    (h : applyDevice env ld cmdname params up nas = some nas') :
    nas' = nas ∨ (∃ ip, nas' = delDevice nas ip) ∨
      (∃ p ∈ params, nas' = addDevice nas (IpAddr.make env (cstr p))) ∨
      ∃ p ∈ params, ∃ ip f, nas' = modifyDevice nas ip (DeviceField.set ld f (cstr p)) := by
  have hfield : ∀ f : DeviceField, (params.head?.bind fun p => up.head?.map fun u =>
      applyInner ld nas (IpAddr.make env (cstr u)).ipa f.cmd (cstr p)) = some nas' →
      ∃ p ∈ params, ∃ ip f, nas' = modifyDevice nas ip (DeviceField.set ld f (cstr p)) := by
    intro f hf
    obtain ⟨p, hp, hf⟩ := Option.bind_eq_some_iff.mp hf
    obtain ⟨u, -, rfl⟩ := Option.map_eq_some_iff.mp hf
    exact ⟨p, List.mem_of_head? hp, _, f, applyInner_cmd f nas _ _⟩
  cases cmdname with
  | confDeviceNo =>
    obtain ⟨p, -, rfl⟩ := Option.map_eq_some_iff.mp h
    exact .inr (.inl ⟨_, rfl⟩)
  | confDeviceNode =>
    obtain ⟨p, hp, rfl⟩ := Option.map_eq_some_iff.mp h
    exact .inr (.inr (.inl ⟨p, List.mem_of_head? hp, rfl⟩))
  | confDeviceMan => exact .inl (Option.some.inj h).symm
  | confDeviceDescr => exact .inr (.inr (.inr (hfield .descr h)))
  | confDeviceTKey => exact .inr (.inr (.inr (hfield .tacKey h)))
  | confDeviceSnmpComm => exact .inr (.inr (.inr (hfield .community h)))
  | confDeviceLogin => exact .inr (.inr (.inr (hfield .loginstring h)))
  | confDevicePwd => exact .inr (.inr (.inr (hfield .pwdstring h)))
  | confDeviceDauth => exact .inr (.inr (.inr (hfield .defAuthor h)))
  | confDeviceModule => exact .inr (.inr (.inr (hfield .module_ h)))
  | confDevicePollDelay => exact .inr (.inr (.inr (hfield .delay h)))
  | confDeviceSnmpPolling => exact .inr (.inr (.inr (hfield .snmppolling h)))
  | confDeviceIcmpPolling => exact .inr (.inr (.inr (hfield .icmppolling h)))
  | confDeviceIntrfCount => exact .inr (.inr (.inr (hfield .counter h)))
  | confDeviceShut => exact .inr (.inr (.inr (hfield .shutdown h)))

theorem ten_not_mem_cstr (hp : (10 : UInt8) ∉ p) : (10 : UInt8) ∉ cstr p := fun h =>
  hp ((List.takeWhile_prefix _).subset h)

theorem oneLine_new (hu : (10 : UInt8) ∉ u) : (DeviceConf.new (IpAddr.make env u)).OneLine where
  hname := fun h => hu ((isPrefix_snprintf 99 u).subset h)
  descr := show (10 : UInt8) ∉ str "unknown" by simp [str]
  tacKey := show (10 : UInt8) ∉ str "tacacs" by simp [str]
  community := show (10 : UInt8) ∉ str "public" by simp [str]
  loginstring := show (10 : UInt8) ∉ str "login:" by simp [str]
  pwdstring := show (10 : UInt8) ∉ str "password:" by simp [str]
  module_ := show (10 : UInt8) ∉ str "none.so" by simp [str]

theorem oneLine_set [LongWidth] (f : DeviceField) (hp : (10 : UInt8) ∉ p) (hd : d.OneLine) :
    (f.set ld p d).OneLine := by
  cases f
  case descr => exact { hd with descr := hp }
  case tacKey => exact { hd with tacKey := hp }
  case community => exact { hd with community := hp }
  case loginstring => exact { hd with loginstring := hp }
  case pwdstring => exact { hd with pwdstring := hp }
  case module_ =>
    refine { hd with module_ := ?_ }
    unfold DeviceField.set
    dsimp only
    split
    · exact ten_not_mem_cstr hd.module_
    · exact hp
  all_goals exact { hd with }

/-- One command leaves the texts without newlines. -/
theorem oneLine_applyDevice [LongWidth] {cmdname : DeviceCmd} {params up : List Bytes}
    (hparams : ∀ t ∈ params, Clean t) (hnas : ∀ d ∈ nas, d.OneLine)
    (h : applyDevice env ld cmdname params up nas = some nas') : ∀ d ∈ nas', d.OneLine := by
  rcases applyDevice_cases h with rfl | ⟨ip, rfl⟩ | ⟨p, hp, rfl⟩ | ⟨p, hp, ip, f, rfl⟩
  · exact hnas
  · intro d hd
    exact hnas d (List.mem_of_mem_filter hd)
  · unfold addDevice
    split
    · exact hnas
    · intro d hd
      rcases List.mem_append.mp hd with hd | hd
      · exact hnas d hd
      · rw [List.mem_singleton.mp hd]
        exact oneLine_new (ten_not_mem_cstr (hparams p hp).2)
  · exact Keyed.forall_mem_alter
      (fun _ => oneLine_set f (ten_not_mem_cstr (hparams p hp).2)) hnas

/-- **What is read back has no newlines.** -/
theorem oneLine_of_replay [LongWidth] {text : Bytes} {up : Option (List Bytes)}
    (h : (deviceSection env ld).replay text [] = some (up, nas)) : ∀ d ∈ nas, d.OneLine :=
  @ConfSection.replay_invariant _ _ _ (deviceSection env ld) [] nas _
    (fun nas => ∀ d ∈ nas, d.OneLine)
    (fun _ _ _ _ _ hparams _ hs h => oneLine_applyDevice hparams hs h) text up (by simp) h

theorem ten_not_mem_value (f : DeviceField) (hd : d.OneLine) : (10 : UInt8) ∉ f.value d := by
  have hquoted : ∀ t : Bytes, (10 : UInt8) ∉ t → (10 : UInt8) ∉ 39 :: t ++ [39] := by
    intro t ht
    simpa using ht
  cases f with
  | descr => exact hquoted _ hd.descr
  | tacKey => exact hquoted _ hd.tacKey
  | community => exact hquoted _ hd.community
  | loginstring => exact hquoted _ hd.loginstring
  | pwdstring => exact hquoted _ hd.pwdstring
  | module_ => exact hd.module_
  | delay => exact ten_not_mem_decimal d.delay
  | defAuthor => exact (answerWord _).ten
  | counter => exact (answerWord _).ten
  | snmppolling => exact (answerWord _).ten
  | icmppolling => exact (answerWord _).ten
  | shutdown => exact (answerWord _).ten

theorem deviceText_lines (hnas : ∀ d ∈ nas, d.OneLine) :
    Records.lines 10 (deviceText nas) = nas.flatMap DeviceConf.lines ++ [[]] := by
  apply Records.lines_records fun d _ => d.buildcfstr_eq_lines
  intro d hd
  apply ten_not_mem_nodeLines (by simp [str]) (hnas d hd).hname
  intro l hl
  obtain ⟨f, -, rfl⟩ := List.mem_map.mp hl
  have hword : (10 : UInt8) ∉ f.word := by cases f <;> simp [DeviceField.word, str]
  exact ten_not_mem_keyLine hword (ten_not_mem_value f (hnas d hd)) 2

theorem ipa_setFields [LongWidth] {fs : List DeviceField} {x' : DeviceConf}
    (h : setFields ld d fs x = some x') : x'.ipa = x.ipa := by
  apply @Records.foldlM_invariant _ _ _ (fun y => y.ipa = x.ipa) fs _ x x' rfl h
  intro y y' f _ hy hy'
  obtain ⟨p, -, rfl⟩ := Option.map_eq_some_iff.mp hy'
  rw [f.ipa_set, hy]

/-- The address that the lines of a device ask for. -/
def DeviceConf.wanted [LongWidth] (env : AcctEnv) (d : DeviceConf) : Option Bytes :=
  d.readAddr.map (fill env)

theorem ipa_of_readDevice [LongWidth] {d' : DeviceConf} (h : readDevice env ld d = some d') :
    some d'.ipa = d.wanted env := by
  obtain ⟨u, hu, h⟩ := Option.bind_eq_some_iff.mp h
  rw [DeviceConf.wanted, hu, ipa_setFields h]
  rfl

/-- Under an address that is new a device is added. -/
theorem run_device_new [LongWidth] (hrs : d.wanted env ∉ rs.map fun d => some d.ipa) :
    d.lines.foldlM (deviceSection env ld).step (none, rs) =
      (readDevice env ld d).map fun d => (none, rs ++ [d]) := by
  rw [run_device, readDevice]
  cases hread : d.readAddr with
  | none => rfl
  | some u =>
    have hfresh : ∀ y ∈ rs, y.ipa ≠ fill env u := by
      intro y hy heq
      apply hrs
      rw [DeviceConf.wanted, hread]
      exact List.mem_map.mpr ⟨y, hy, congrArg some heq⟩
    have hadd : addDevice rs (IpAddr.make env u) = rs ++ [.new (IpAddr.make env u)] := by
      have hnone : Keyed.look DeviceConf.ipa rs (IpAddr.make env u).ipa = none :=
        Keyed.look_eq_none_iff.mpr hfresh
      rw [addDevice, hnone]
    have happly := @applyFields_concat ld rs d (.new (IpAddr.make env u)) _ hfresh deviceFields
    rw [Option.bind_some, Option.bind_some, hadd]
    show (applyFields ld (fill env u) d deviceFields _).map _ = _
    rw [show fill env u = (DeviceConf.new (IpAddr.make env u)).ipa from rfl, happly,
      Option.map_map]
    rfl

/-- Under an address that is there no device is added. -/
theorem run_device_old [LongWidth] {s : Option (List Bytes) × List DeviceConf}
    (hrs : d.wanted env ∈ rs.map fun d => some d.ipa)
    (h : d.lines.foldlM (deviceSection env ld).step (none, rs) = some s) :
    ∃ rs', s = (none, rs') ∧ rs'.length = rs.length := by
  rw [run_device] at h
  obtain ⟨rs', hrun, rfl⟩ := Option.map_eq_some_iff.mp h
  obtain ⟨u, hu, hfields⟩ := Option.bind_eq_some_iff.mp hrun
  refine ⟨rs', rfl, (length_applyFields hfields).trans ?_⟩
  have hsome : (Keyed.look DeviceConf.ipa rs (IpAddr.make env u).ipa).isSome = true := by
    rw [DeviceConf.wanted, hu] at hrs
    obtain ⟨y, hy, heq⟩ := List.mem_map.mp hrs
    exact Keyed.look_isSome_iff.mpr ⟨y, hy, Option.some.inj heq⟩
  obtain ⟨y, hy⟩ := Option.isSome_iff_exists.mp hsome
  rw [addDevice, hy]

/-- **Devices in the file**: they are read back if and only if no address comes twice and the file
can hold each of them. -/
theorem devicesReadBack_iff [LongWidth] : DevicesReadBack env ld nas ↔
    (nas.map DeviceConf.ipa).Nodup ∧ ∀ d ∈ nas, d.Storable env ld := by
  have hback : (∀ d ∈ nas, d.OneLine) → (DevicesReadBack env ld nas ↔
      (nas.map DeviceConf.ipa).Nodup ∧ ∀ d ∈ nas, d.Storable env ld) := by
    intro hnas
    have hreplay := (deviceSection env ld).replay_lines (List.cons_ne_nil _ _)
      (List.cons_ne_nil _ _) (deviceText_lines hnas) []
    have hmerge := @Records.readsBack_merge_iff _ _ _ _ (fun d : DeviceConf => some d.ipa)
      (deviceSection env ld).step (fun rs => (none, rs)) DeviceConf.lines (readDevice env ld)
      (DeviceConf.wanted env) nas (fun _ _ _ => run_device_new) (fun _ _ _ _ => run_device_old)
      (fun _ _ _ => ipa_of_readDevice) (fun l l' h => by simpa using h)
    have hnodup : (nas.map fun d => some d.ipa).Nodup ↔ (nas.map DeviceConf.ipa).Nodup := by
      rw [← List.nodup_map_iff (Option.some_injective Bytes), List.map_map]
      rfl
    rw [DevicesReadBack, hreplay, hmerge, hnodup]
    apply and_congr_right
    intro _
    apply forall₂_congr
    intro d hd
    exact readDevice_eq_self_iff (hnas d hd)
  constructor
  · intro h
    exact (hback (oneLine_of_replay h)).mp h
  · intro h
    exact (hback fun d hd => (h.2 d hd).oneLine).mpr h

end

end Tacppd
