/-
# Devices in the configuration file

`Device_data::buildcfstr` writes a device as the lines of its node, most of its texts between
quotes, and `CoreDevice::applycf` makes the devices again of the commands.  Nothing is done about
a quote in a text, or a backslash at its end.
-/
import Tacppd.ConfSection
import Tacppd.Lib.Keyed

namespace Tacppd

/-! ## Devices -/

/-- Class `ipaddr`: the text that it was made of, in `char hname_[100]`, and the address. -/
structure IpAddr where
  hname : Bytes
  ipa : Bytes
  fits : snprintf 99 hname = hname

/-- The settings of a device, class `Device_data`. -/
structure DeviceConf where
  hostaddr : IpAddr
  descr : Bytes
  tacKey : Bytes
  community : Bytes
  loginstring : Bytes
  pwdstring : Bytes
  defAuthor : Bool
  module_ : Bytes
  delay : ℤ
  counter : Bool
  snmppolling : Bool
  icmppolling : Bool
  shutdown : Bool

/-- `Device_data::Device_data(h)`. -/
def DeviceConf.new (h : IpAddr) : DeviceConf where
  hostaddr := h
  descr := str "unknown"
  tacKey := str "tacacs"
  community := str "public"
  loginstring := str "login:"
  pwdstring := str "password:"
  defAuthor := false
  module_ := str "none.so"
  delay := 60
  counter := false
  snmppolling := false
  icmppolling := false
  shutdown := true

/-- The loading of modules by class `DLoad`: the text of the error, if there is one, and the
functions that are found in a module. -/
structure DLoad where
  snmpload : Bytes → Bytes
  getfunc : Bytes → Bytes → Bool

/-- `Device_data::load`. -/
def DLoad.load (ld : DLoad) (module_ : Bytes) : Bytes :=
  let s := ld.snmpload module_
  if s ≠ [] then s
  else if ¬ ld.getfunc module_ (str "getnas") ∨ ¬ ld.getfunc module_ (str "dropnas") then
    s ++ str "Unknown snmp module " ++ module_ ++ str " format"
  else s

/-- `yes` or `no`. -/
def yesNo (b : Bool) : Bytes := if b then str "yes" else str "no"

/-- `Device_data::buildcfstr`. -/
def DeviceConf.buildcfstr (d : DeviceConf) : Bytes :=
  str " device " ++ d.hostaddr.hname ++ [10] ++
    str "  description '" ++ d.descr ++ [39, 10] ++
    str "  tacacskey '" ++ d.tacKey ++ [39, 10] ++
    str "  snmpcommunity '" ++ d.community ++ [39, 10] ++
    str "  loginstring '" ++ d.loginstring ++ [39, 10] ++
    str "  pwdstring '" ++ d.pwdstring ++ [39, 10] ++
    str "  defauthorization " ++ yesNo d.defAuthor ++ [10] ++
    str "  module " ++ d.module_ ++ [10] ++
    str "  polldelay " ++ decimal d.delay ++ [10] ++
    str "  inttrfcount " ++ yesNo d.counter ++ [10] ++
    str "  snmppolling " ++ yesNo d.snmppolling ++ [10] ++
    str "  icmppolling " ++ yesNo d.icmppolling ++ [10] ++
    str "  shutdown " ++ yesNo d.shutdown ++ [10] ++
    str "  exit"

/-- The texts of all devices, each with its newline. -/
def deviceText (nas : List DeviceConf) : Bytes := nas.flatMap fun d => d.buildcfstr ++ [10]

/-! ## The commands -/

/-- The second loop of `vmatch` over an alternative of the mask. -/
def vmatchRest : Bytes → Bytes → Bool
  | m :: mask, c :: b => if m ≠ toLower c then false else vmatchRest mask b
  | _, _ => true

/-- The first loop, over its capital letters. -/
def vmatchHead : Bytes → Bytes → Bool
  | m :: mask, c :: b =>
    if isUpper m then if toLower m ≠ toLower c then false else vmatchHead mask b
    else vmatchRest (m :: mask) (c :: b)
  | m :: _, [] => !isUpper m
  | [], _ => true

/-- `utl::vmatch`, of a mask that is one alternative. -/
def vmatch (s mask : Bytes) : Bytes :=
  if cstr s = [] then [] else if vmatchHead mask (snprintf 199 s) then mask.map toLower else []

/-- The commands by their `cmdID`. -/
inductive DeviceCmd
  | confDeviceNo
  | confDeviceNode
  | confDeviceMan
  | confDeviceDescr
  | confDeviceTKey
  | confDeviceSnmpComm
  | confDeviceLogin
  | confDevicePwd
  | confDeviceDauth
  | confDeviceModule
  | confDevicePollDelay
  | confDeviceSnmpPolling
  | confDeviceIcmpPolling
  | confDeviceIntrfCount
  | confDeviceShut
  deriving DecidableEq

/-- `{choice:Yes|No}`: the first alternative goes on to the end of the text. -/
def yesNoMask : ParamMask := .choice [str "Yes|No", str "No"]

/-- The commands for devices in the node `config` of `etc/tacppd.cf.xml`. -/
def deviceConfig : List (List MaskWord × Option DeviceCmd) :=
  [([.key (str "Exit")], none),
    ([.key (str "NO"), .key (str "DEVice"), .param .ip], some .confDeviceNo),
    ([.key (str "DEVice"), .param .ip], some .confDeviceNode)]

/-- The commands in the node of a device. -/
def deviceInner : List (List MaskWord × Option DeviceCmd) :=
  [([.key (str "Exit")], none),
    ([.key (str "MAnager")], some .confDeviceMan),
    ([.key (str "DEScription"), .param (.str 0 (some 255))], some .confDeviceDescr),
    ([.key (str "Tacacskey"), .param (.str 2 (some 30))], some .confDeviceTKey),
    ([.key (str "SNMPCommunity"), .param (.str 2 (some 30))], some .confDeviceSnmpComm),
    ([.key (str "LOginstring"), .param (.str 2 (some 30))], some .confDeviceLogin),
    ([.key (str "PWdstring"), .param (.str 2 (some 30))], some .confDevicePwd),
    ([.key (str "DEFauthorization"), .param yesNoMask], some .confDeviceDauth),
    ([.key (str "MOdule"), .param (.str 2 (some 30))], some .confDeviceModule),
    ([.key (str "POlldelay"), .param (.int 1 (some 300))], some .confDevicePollDelay),
    ([.key (str "SNMPPolling"), .param yesNoMask], some .confDeviceSnmpPolling),
    ([.key (str "ICmppolling"), .param yesNoMask], some .confDeviceIcmpPolling),
    ([.key (str "INttrfcount"), .param yesNoMask], some .confDeviceIntrfCount),
    ([.key (str "SHutdown"), .param yesNoMask], some .confDeviceShut)]

section

variable (env : AcctEnv) (ld : DLoad) (nas : List DeviceConf) (ip : Bytes)

/-- `ipaddr::ipaddr(s)`. -/
def IpAddr.make (s : Bytes) : IpAddr := ⟨snprintf 99 s, fill env s, snprintf_snprintf 99 s⟩

/-- The address of a device. -/
def DeviceConf.ipa (d : DeviceConf) : Bytes := d.hostaddr.ipa

/-- `CoreDevice::add`. -/
def addDevice (h : IpAddr) : List DeviceConf :=
  match Keyed.look DeviceConf.ipa nas h.ipa with
  | some _ => nas
  | none => nas ++ [.new h]

/-- `CoreDevice::del`. -/
def delDevice : List DeviceConf := Keyed.dropAll DeviceConf.ipa ip nas

/-- The device with the address, the first one, is changed. -/
def modifyDevice (f : DeviceConf → DeviceConf) : List DeviceConf :=
  Keyed.alter DeviceConf.ipa ip f nas

/-- `CoreDevice::modifyCommunity`, and the others like it. -/
def modifyCommunity (c : Bytes) := modifyDevice nas ip fun d => { d with community := c }
def modifyCounter (co : Bool) := modifyDevice nas ip fun d => { d with counter := co }
def modifyDelay (pd : ℤ) := modifyDevice nas ip fun d => { d with delay := pd }
def modifyDescr (s : Bytes) := modifyDevice nas ip fun d => { d with descr := s }
def modifyModule (m : Bytes) := modifyDevice nas ip fun d => { d with module_ := m }
def modifyKey (tk : Bytes) := modifyDevice nas ip fun d => { d with tacKey := tk }
def modifyLogin (l : Bytes) := modifyDevice nas ip fun d => { d with loginstring := l }
def modifyPwd (p : Bytes) := modifyDevice nas ip fun d => { d with pwdstring := p }
def modifyDef (a : Bool) := modifyDevice nas ip fun d => { d with defAuthor := a }
def modifyShut (s : Bool) := modifyDevice nas ip fun d => { d with shutdown := s }
def modifySnmp (s : Bool) := modifyDevice nas ip fun d => { d with snmppolling := s }
def modifyIcmp (s : Bool) := modifyDevice nas ip fun d => { d with icmppolling := s }

/-- `CoreDevice::getmodulename`. -/
def getmodulename : Bytes :=
  match Keyed.look DeviceConf.ipa nas ip with
  | some d => d.module_
  | none => str "none.so"

/-- `CoreDevice::load`. -/
def loadDevice : Bytes :=
  match Keyed.look DeviceConf.ipa nas ip with
  | some d => ld.load d.module_
  | none => []

/-- The branch `confDeviceModule` of `applycf`: a module that cannot be loaded is not kept. -/
def applyModule (m : Bytes) : List DeviceConf :=
  let tmp := getmodulename nas ip
  let nas' := modifyModule nas ip m
  if loadDevice ld nas' ip ≠ [] then modifyModule nas' ip (cstr tmp) else nas'

/-- `vmatch(p,"Yes").size() ? true : false`. -/
def saysYes (p : Bytes) : Bool := decide (vmatch p (str "Yes") ≠ [])

/-- The commands in the node of a device; `ip` is the address in it. -/
def applyInner [LongWidth] (cmdname : DeviceCmd) (p : Bytes) : List DeviceConf :=
  match cmdname with
  | .confDeviceDescr => modifyDescr nas ip p
  | .confDeviceTKey => modifyKey nas ip p
  | .confDeviceSnmpComm => modifyCommunity nas ip p
  | .confDeviceLogin => modifyLogin nas ip p
  | .confDevicePwd => modifyPwd nas ip p
  | .confDeviceDauth => modifyDef nas ip (saysYes p)
  | .confDeviceModule => applyModule ld nas ip p
  | .confDevicePollDelay => modifyDelay nas ip (atoi p)
  | .confDeviceIntrfCount => modifyCounter nas ip (saysYes p)
  | .confDeviceSnmpPolling => modifySnmp nas ip (saysYes p)
  | .confDeviceIcmpPolling => modifyIcmp nas ip (saysYes p)
  | .confDeviceShut => modifyShut nas ip (saysYes p)
  | .confDeviceNo | .confDeviceNode | .confDeviceMan => nas

/-- `CoreDevice::applycf`.  The parameters come as C strings. -/
def applyDevice [LongWidth] (cmdname : DeviceCmd) (paramList up : List Bytes)
    (nas : List DeviceConf) : Option (List DeviceConf) :=
  match cmdname with
  | .confDeviceMan => some nas
  | .confDeviceNo => paramList.head?.map fun p => delDevice nas (IpAddr.make env (cstr p)).ipa
  | .confDeviceNode => paramList.head?.map fun p => addDevice nas (IpAddr.make env (cstr p))
  | _ =>
    paramList.head?.bind fun p => up.head?.map fun u =>
      applyInner ld nas (IpAddr.make env (cstr u)).ipa cmdname (cstr p)

/-- The commands for devices in `etc/tacppd.cf.xml`. -/
def deviceSection [LongWidth] : ConfSection (List DeviceConf) DeviceCmd where
  config := deviceConfig
  node := .confDeviceNode
  inner := deviceInner
  applycf := applyDevice env ld

/-- The text of the devices gives the same devices, from none. -/
def DevicesReadBack [LongWidth] : Prop :=
  (deviceSection env ld).replay (deviceText nas) [] = some (none, nas)

end

end Tacppd
