/-
# What the AAA functions read

`TacDb.h`: the record of a user with its access, authorization and command rows,
and what the AAA functions read of the rest of the server at one moment: the user
tracking system in front of the database, the number of sessions, the clock, and
the regular expressions.
-/
import Tacppd.Crypt

namespace Tacppd

/-- One authorization row of a user, class `user_avp`. -/
structure UserAvp where
  service : Bytes
  protocol : Bytes
  avp : Bytes
  deriving DecidableEq, Repr

/-- One row of per-command authorization, class `cmd_avp`. -/
structure CmdAvp where
  cmdperm : Bytes
  cmddeny : Bytes
  argperm : Bytes
  argdeny : Bytes
  deriving DecidableEq, Repr

/-- One access row of a user, class `db_user_acc`: patterns for the remote
address, the NAS and the port, and a time entry. -/
structure DbUserAcc where
  phone : Bytes
  nas : Bytes
  port : Bytes
  time : Bytes
  deriving DecidableEq, Repr

/-- The record of a user, class `db_user`. -/
structure DbUser where
  authsrc : Bytes
  password : Bytes
  enable : Bytes
  /-- `open_` and `close_`, in seconds. -/
  openTime : ℤ
  closeTime : ℤ
  maxsess : ℤ
  avp : List UserAvp
  cmd : List CmdAvp
  acc : List DbUserAcc
  /-- `result_`: the look-up found the user. -/
  result : Bool
  deriving DecidableEq, Repr

/-- The rest of the server as the AAA functions see it at one moment. -/
structure Env where
  /-- `userTrack.get2add(user, nas, port, phone)`. -/
  get2add : Bytes → Bytes → Bytes → Bytes → DbUser
  /-- `getDevice()->numsess(user)`. -/
  numsess : Bytes → ℤ
  time : ℤ
  /-- `regcomp` accepts the pattern and `regexec` finds it in the text. -/
  regexec : Bytes → Bytes → Bool
  /-- `utl::check_time` on a time entry, now. -/
  checkTime : Bytes → Bool
  /-- The phone of the entry tracked on a device and port, empty when there is none. -/
  trackedPhone : Bytes → Bytes → Bytes
  /-- `AModify(user, nas, port, phone).modifyer(data)`. -/
  modifyer : Bytes → Bytes → Bytes → Bytes → DbUser → DbUser

/-- The same server, where every look-up answers the given record. -/
def Env.withRecord (env : Env) (data : DbUser) : Env :=
  { env with get2add := fun _ _ _ _ => data }

/-- A server where nothing is tracked and no pattern matches. -/
def quietEnv (data : DbUser) : Env where
  get2add _ _ _ _ := data
  numsess _ := 0
  time := 0
  regexec _ _ := false
  checkTime _ := false
  trackedPhone _ _ := []
  modifyer _ _ _ _ data := data

/-- A user who needs no password, with the given rows. -/
def openUser (avp : List UserAvp) (cmd : List CmdAvp) (acc : List DbUserAcc) : DbUser where
  authsrc := str "nopwd"
  password := []
  enable := []
  openTime := 0
  closeTime := 0
  maxsess := 0
  avp := avp
  cmd := cmd
  acc := acc
  result := true

/-- The quiet server, but patterns are texts to be found. -/
def searchEnv (data : DbUser) : Env :=
  { quietEnv data with regexec := fun pattern text => decide (pattern <:+: text) }

end Tacppd
