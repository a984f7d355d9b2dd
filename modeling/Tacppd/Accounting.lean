/-
# Accounting

`AAA::db_accounting` gets one list of texts: first the lines that `process` has made
from the packet, then the AVPs of the client.  It fills a `log_user` from them, each
text by its tag, and acts on it: START and UPDATE add the user to the tracking system,
STOP writes the record to the database and deletes the user.

Both groups of texts are read the same way and the later one is the client's, so the
identity under which a packet is recorded is the one of its header exactly when no AVP
of the client says otherwise (`accounting_identity_iff`).
-/
import Tacppd.Atoi
import Tacppd.Track
import Tacppd.Request
import Tacppd.Lib.Tagged

namespace Tacppd

open Tagged

/-! ## Texts and addresses -/

/-- What `db_accounting` asks of the machine it runs on. -/
structure AcctEnv where
  /-- `gethostbyname_r` and `inet_ntoa`: the text of the address of a name. -/
  gethostbyname : Bytes → Option Bytes
  /-- `inet_addr`, as the text that `inet_ntoa` makes of it. -/
  inetAddr : Bytes → Bytes
  /-- `utl::h323time2time`, which depends on the time zone. -/
  h323time2time : Bytes → ℤ

/-- Addresses that name themselves. -/
def numericEnv : AcctEnv := ⟨fun name => some name, id, fun _ => 0⟩

/-- `ipaddr::getipfromname`. -/
def getipfromname (env : AcctEnv) (name : Bytes) : Bytes :=
  if name = [] then unknownIp
  else if name = str "localhost" then str "127.0.0.1"
  else if name = unknownIp then unknownIp
  else
    match env.gethostbyname name with
    | none => snprintf 63 name
    | some addr => snprintf 64 addr

/-- `ipaddr::fill`. -/
def fill (env : AcctEnv) (s : Bytes) : Bytes :=
  env.inetAddr (snprintf 99 (getipfromname env s))

/-- `utl::portConvert`: "Serial" to "Se", "Async" to "As", and back. -/
def portConvert (s : Bytes) : Bytes :=
  if s = [] then []
  else
    let p := snprintf 99 s
    let port :=
      if scompNum p (str "Serial") 6 then snprintf 99 (str "Se" ++ p.drop 6)
      else if scompNum p (str "Async") 5 then snprintf 99 (str "As" ++ p.drop 5)
      else snprintf 99 p
    if scompNum p (str "Se") 2 && !scompNum p (str "Seri") 4 then
      snprintf 99 (str "Serial" ++ p.drop 2)
    else if scompNum p (str "As") 2 && !scompNum p (str "Asyn") 4 then
      snprintf 99 (str "Async" ++ p.drop 2)
    else port

/-! ## The record -/

/-- `log_user`; the server and the time of the record are added with the log entry. -/
structure LogUser where
  action : ℕ
  taskId : ℤ
  startTime : ℤ
  username : Bytes
  phone : Bytes
  port : Bytes
  elapsed : ℕ
  ip : Bytes
  nas : Bytes
  service : Bytes
  protocol : Bytes
  discCause : ℤ
  discCauseExt : ℤ
  bytesIn : ℕ
  bytesOut : ℕ
  rxSpeed : ℕ
  txSpeed : ℕ
  h323CallOrigin : Bytes
  h323CallType : Bytes
  h323DisconnectCause : ℤ
  h323VoiceQuality : ℤ
  h323RemoteAddress : Bytes
  h323ConnectTime : ℤ
  h323DisconnectTime : ℤ
  deriving DecidableEq, Repr

/-- The constructor of `log_user`; an address without a value is that of localhost. -/
def LogUser.new : LogUser where
  action := 0
  taskId := 0
  startTime := 0
  username := []
  phone := []
  port := []
  elapsed := 0
  ip := unknownIp
  nas := unknownIp
  service := []
  protocol := []
  discCause := 0
  discCauseExt := 0
  bytesIn := 0
  bytesOut := 0
  rxSpeed := 0
  txSpeed := 0
  h323CallOrigin := []
  h323CallType := []
  h323DisconnectCause := 0
  h323VoiceQuality := 0
  h323RemoteAddress := str "127.0.0.1"
  h323ConnectTime := 0
  h323DisconnectTime := 0

/-- The value of an `action=` text; another value leaves the action as it is. -/
def actionOf (v : Bytes) : Option ℕ :=
  if v = str "START" then some 1
  else if v = str "UPDATE" then some 2
  else if v = str "STOP" then some 3
  else none

/-- The tests of the loop, in their order.  The number that the source gives with each
tag is the length of the tag. -/
def acctFields [LongWidth] (env : AcctEnv) : List (Field UInt8 LogUser) :=
  [⟨str "action=", fun l v => { l with action := (actionOf v).getD l.action }⟩,
    ⟨str "user=", fun l v => { l with username := v }⟩,
    ⟨str "port=", fun l v => { l with port := v }⟩,
    ⟨str "from=", fun l v => { l with phone := v }⟩,
    ⟨str "nas=", fun l v => { l with nas := fill env v }⟩,
    ⟨str "service=", fun l v => { l with service := v }⟩,
    ⟨str "protocol=", fun l v => { l with protocol := v }⟩,
    ⟨str "address=", fun l v => { l with ip := fill env v }⟩,
    ⟨str "addr=", fun l v => { l with ip := fill env v }⟩,
    ⟨str "bytes_in=", fun l v => { l with bytesIn := atoiUnsigned v }⟩,
    ⟨str "bytes_out=", fun l v => { l with bytesOut := atoiUnsigned v }⟩,
    ⟨str "elapsed_time=", fun l v => { l with elapsed := atoiUnsigned v }⟩,
    ⟨str "disc-cause=", fun l v => { l with discCause := atoi v }⟩,
    ⟨str "disc-cause-ext=", fun l v => { l with discCauseExt := atoi v }⟩,
    ⟨str "nas-rx-speed=", fun l v => { l with rxSpeed := atoiUnsigned v }⟩,
    ⟨str "nas-tx-speed=", fun l v => { l with txSpeed := atoiUnsigned v }⟩,
    ⟨str "start_time=", fun l v => { l with startTime := strtol v }⟩,
    ⟨str "task_id=", fun l v => { l with taskId := atoi v }⟩,
    ⟨str "h323-call-origin=", fun l v => { l with h323CallOrigin := v }⟩,
    ⟨str "h323-call-type=", fun l v => { l with h323CallType := v }⟩,
    ⟨str "h323-disconnect-cause=", fun l v => { l with h323DisconnectCause := atoi v }⟩,
    ⟨str "h323-voice-quality=", fun l v => { l with h323VoiceQuality := atoi v }⟩,
    ⟨str "h323-remote-address=", fun l v => { l with h323RemoteAddress := fill env v }⟩,
    ⟨str "h323-connect-time=", fun l v => { l with h323ConnectTime := env.h323time2time v }⟩,
    ⟨str "h323-disconnect-time=",
      fun l v => { l with h323DisconnectTime := env.h323time2time v }⟩]

/-- The loop of `db_accounting`: each text is tested for the tags and goes to the field
of the first one that fits. -/
def logUser [LongWidth] (env : AcctEnv) (logavp : List Bytes) : LogUser :=
  logavp.foldl (assign (acctFields env)) LogUser.new

/-- The record goes no further without a user name or an action. -/
def LogUser.entry (l : LogUser) : Option LogUser :=
  if l.username = [] ∨ l.action = 0 then none else some l

/-! ## What is done with it -/

/-- A message to the other servers of the bundle. -/
structure BundleUser where
  username : Bytes
  nas : Bytes
  ip : Bytes
  port : Bytes
  phone : Bytes
  add : Bool
  deriving DecidableEq, Repr

/-- What a call of `db_accounting` leaves. -/
structure Accounted where
  /-- The line in the log file. -/
  logstr : Bytes
  /-- The address that is given back to the pools. -/
  freed : Option Bytes
  /-- The entry in the database. -/
  addLog : Option LogUser
  ut : Option BundleUser
  track : UserTrack

/-- The texts with a tab after each. -/
def logstr (logavp : List Bytes) : Bytes :=
  (logavp.map fun s => if s = [] then [] else s ++ [9]).flatten

/-- The port as the tracking system has it: converted twice. -/
def LogUser.prt (l : LogUser) : Bytes := portConvert (portConvert l.port)

def LogUser.bundle (l : LogUser) (add : Bool) : BundleUser :=
  ⟨l.username, l.nas, l.ip, l.prt, l.phone, add⟩

/-- `AAA::db_accounting`. -/
def dbAccounting [LongWidth] (env : AcctEnv) (s : UserTrack) (w : World) (logavp : List Bytes) :
    Accounted :=
  match (logUser env logavp).entry with
  | none => ⟨logstr logavp, none, none, none, s⟩
  | some l =>
    if l.action = 1 then
      let r := s.add w l.username l.nas l.prt l.phone l.ip
      ⟨logstr logavp, none, none, if r.1 then some (l.bundle true) else none, r.2⟩
    else if l.action = 3 then
      let freed := if l.ip ≠ unknownIp then some l.ip else none
      let r := s.del l.username l.nas l.prt
      ⟨logstr logavp, freed, some l, if r.1 then some (l.bundle false) else none, r.2⟩
    else if l.action = 2 then
      let r := s.add w l.username l.nas l.prt l.phone l.ip
      ⟨logstr logavp, none, none, if r.1 then some (l.bundle true) else none, r.2⟩
    else ⟨logstr logavp, none, none, none, s⟩

end Tacppd
