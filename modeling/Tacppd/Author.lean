/-
# Authorization

`TacacsSessionContainer::process`, the part for authorization requests.  The
server finds the user's record, reads `service=` and `protocol=` from the
request, refuses a service the record does not have, reviews the other AVPs of
the request one by one (steps a to j of the source), adds what the record has for
the service (step k), and answers.

The loop over the AVPs ends early by `throw 1`, which is answered FAIL.  What the
loop body does to the answer list does not depend on the list, so it is a function
of its own, `reviewAvp`.
-/
import Tacppd.Aaa
import Tacppd.Avp

namespace Tacppd

/-! ## Requests and answers -/

/-- An authorization request, as `get_request` leaves it.  The array `avpair` has
`MAX_AVP` places and ends with a null pointer. -/
structure AuthorRequest where
  method : UInt8
  privLvl : UInt8
  authenType : UInt8
  authenService : UInt8
  user : Bytes
  port : Bytes
  remAddr : Bytes
  avpair : List Bytes
  fits : avpair.length < maxAvp

inductive AuthorStatus
  | passAdd
  | passRepl
  | fail
  deriving DecidableEq, Repr

def AuthorStatus.code : AuthorStatus → UInt8
  | passAdd => 1
  | passRepl => 2
  | fail => 16

/-- What `send_response` is called with: the status, and the AVPs or a null
pointer. -/
structure AuthorAnswer where
  status : AuthorStatus
  avpair : Option (List Bytes)
  deriving DecidableEq, Repr

/-- The answer to `throw 1`. -/
def failAnswer : AuthorAnswer := ⟨.fail, none⟩

/-! ## Service and protocol -/

def UserAvp.compareService (r : UserAvp) (s : Bytes) : Bool := r.service == s

def UserAvp.compareProtocol (r : UserAvp) (s : Bytes) : Bool := r.protocol == s

/-- What is read from the first AVPs of a request. -/
structure Named where
  curService : Option Bytes
  curProtocol : Option Bytes
  startAv : ℕ
  bavpair : List Bytes
  deriving DecidableEq, Repr

/-- The service/protocol part of the request; nothing when the first AVP is not
`service=`. -/
def parseService (avpair : List Bytes) : Option Named :=
  match avpair with
  | [] => some ⟨none, none, 0, []⟩
  | av0 :: rest =>
    if av0.length < 8 ∨ !scompNum av0 (str "service=") 8 then none
    else
      match rest with
      | av1 :: _ =>
        if scompNum av1 (str "protocol=") 9 then
          some ⟨some (av0.drop 8), some (av1.drop 9), 2, [av0, av1]⟩
        else some ⟨some (av0.drop 8), none, 1, [av0]⟩
      | [] => some ⟨some (av0.drop 8), none, 1, [av0]⟩

/-- The loop of the service/protocol gate, with `flag_serv` and `flag_proto`. -/
def gateLoop (curService curProtocol : Bytes) : Bool → Bool → List UserAvp → Bool × Bool
  | flagServ, flagProto, [] => (flagServ, flagProto)
  | flagServ, flagProto, avp :: rest =>
    let flags :=
      if avp.compareService curService then
        (true, if avp.compareProtocol curProtocol then true else flagProto)
      else (flagServ, flagProto)
    if flags.1 && flags.2 then flags else gateLoop curService curProtocol flags.1 flags.2 rest

/-- The gate lets the request through. -/
def gate (curService curProtocol : Bytes) (rows : List UserAvp) : Bool :=
  let flags := gateLoop curService curProtocol false false rows
  -- refused only when both flags are down
  !(!flags.1 && !flags.2)

/-! ## The review of one AVP -/

/-- The loop over the command rows, with the pattern columns for permit and deny.
`flag1`/`flag3` start false, `flag2`/`flag4` true, in each review anew. -/
def permLoop (env : Env) (perm deny : CmdAvp → Bytes) (value : Bytes) :
    Bool → Bool → List CmdAvp → Bool × Bool
  | flag1, flag2, [] => (flag1, flag2)
  | flag1, flag2, cmd :: rest =>
    let flag1 := if perm cmd ≠ [] then if env.regexec (perm cmd) value then true else flag1
      else flag1
    let flag2 := if deny cmd ≠ [] then if env.regexec (deny cmd) value then false else flag2
      else flag2
    permLoop env perm deny value flag1 flag2 rest

/-- No `throw 1` after the loop over the command rows. -/
def permitted (env : Env) (perm deny : CmdAvp → Bytes) (value : Bytes) (rows : List CmdAvp) :
    Bool :=
  let flags := permLoop env perm deny value false true rows
  if !flags.2 then false else if !flags.1 then false else true

/-- What the review of one AVP does to the answer: the AVP it puts on the list,
whether it counts up `replaced`, and the database row it logs. -/
structure Step where
  put : Option Bytes
  replaces : Bool
  row : Option UserAvp
  deriving DecidableEq, Repr

/-- An AVP that leaves no trace in the answer. -/
def Step.skip : Step := ⟨none, false, none⟩

section

variable (rows : List UserAvp) (nasAvp : Bytes)

/-- The rows the loops of the steps stop at. -/
def stepAB : Option UserAvp :=
  rows.find? fun avp => scomp avp.avp nasAvp || (matchAttr avp.avp nasAvp && optional avp.avp)

def stepE : Option UserAvp := rows.find? fun avp => scomp nasAvp avp.avp

def stepF : Option UserAvp :=
  rows.find? fun avp => mandatory avp.avp && matchAttr nasAvp avp.avp

def stepG : Option UserAvp :=
  rows.find? fun avp =>
    !mandatory avp.avp && (matchAttr nasAvp avp.avp && matchValue nasAvp avp.avp)

def stepH : Option UserAvp :=
  rows.find? fun avp => !mandatory avp.avp && matchAttr nasAvp avp.avp

/-- Steps a to d, for a mandatory AVP of the request. -/
def reviewMandatory (authoriz : Bool) : Option Step :=
  match stepAB rows nasAvp with
  | some avp => some ⟨some nasAvp, false, some avp⟩
  | none => if !authoriz then none else some ⟨some nasAvp, false, none⟩

/-- Steps e to j, for an optional AVP of the request. -/
def reviewOptional (authoriz : Bool) : Step :=
  match stepE rows nasAvp with
  | some avp => ⟨some nasAvp, false, some avp⟩
  | none =>
    match stepF rows nasAvp with
    | some avp => ⟨some avp.avp, true, some avp⟩
    | none =>
      match stepG rows nasAvp with
      | some avp => ⟨some avp.avp, true, some avp⟩
      | none =>
        match stepH rows nasAvp with
        | some avp => ⟨some avp.avp, true, some avp⟩
        | none => if !authoriz then ⟨none, true, none⟩ else ⟨some nasAvp, true, none⟩

end

/-- The body of the review loop for a non-empty AVP; nothing for `throw 1`. -/
def reviewAvp (env : Env) (authoriz : Bool) (dbd : DbUser) (nasAvp : Bytes) : Option Step :=
  if matchAttr nasAvp (str "cmd=") then
    if permitted env CmdAvp.cmdperm CmdAvp.cmddeny (getValue nasAvp) dbd.cmd then some .skip
    else none
  else if matchAttr nasAvp (str "cmd-arg=") then
    if scomp (str "cmd-arg=<cr>") nasAvp then some .skip
    else if permitted env CmdAvp.argperm CmdAvp.argdeny (getValue nasAvp) dbd.cmd then some .skip
    else none
  else if mandatory nasAvp then reviewMandatory dbd.avp nasAvp authoriz
  else some (reviewOptional dbd.avp nasAvp authoriz)

/-! ## The answer -/

/-- The answer list while it is made.  `added` holds the rows that the source's
counter of this name counts, `used` the rows the review has logged. -/
structure Review where
  bavpair : List Bytes
  replaced : ℕ
  used : List UserAvp
  added : List UserAvp
  deriving DecidableEq, Repr

def Review.add (st : Review) (s : Step) : Review where
  bavpair := st.bavpair ++ s.put.toList
  replaced := if s.replaces then st.replaced + 1 else st.replaced
  used := st.used ++ s.row.toList
  added := st.added

/-- The review loop; `throw 1` leaves the answer list as it stands. -/
def reviewLoop (env : Env) (authoriz : Bool) (dbd : DbUser) :
    Review → List Bytes → Except Review Review
  | st, [] => .ok st
  | st, nasAvp :: rest =>
    if nasAvp = [] then reviewLoop env authoriz dbd st rest
    else
      match reviewAvp env authoriz dbd nasAvp with
      | none => .error st
      | some s => reviewLoop env authoriz dbd (st.add s) rest

/-- Step k: the mandatory AVPs of the service whose attribute is not on the list
yet.  The list has room for `MAX_AVP - 1` AVPs, and one more is written outside
the array. -/
def addLoop (curService curProtocol : Bytes) : Review → List UserAvp → Option Review
  | st, [] => some st
  | st, avp :: rest =>
    if !avp.compareService curService || !avp.compareProtocol curProtocol then
      addLoop curService curProtocol st rest
    else if optional avp.avp then addLoop curService curProtocol st rest
    else if st.bavpair.any (matchAttr avp.avp) then addLoop curService curProtocol st rest
    else if avp.avp = [] then addLoop curService curProtocol st rest
    -- the last place of the array is that of the null pointer
    else if maxAvp ≤ st.bavpair.length + 1 then none
    else
      addLoop curService curProtocol
        { st with bavpair := st.bavpair ++ [avp.avp], added := st.added ++ [avp] } rest

/-- The answer after step k.  PASS_ADD sends what stands on the list after as many
AVPs as the request has. -/
def finish (avpair : List Bytes) (st : Review) : AuthorAnswer :=
  if 0 < st.replaced then ⟨.passRepl, some st.bavpair⟩
  else if st.added ≠ [] then
    -- counted from the request's AVPs, although commands are not on the list
    ⟨.passAdd, some ((st.bavpair.drop avpair.length).filter (· ≠ []))⟩
  else ⟨.passAdd, none⟩

/-- One authorization: the answer, nothing when the array of the answer overflows;
the rows the review has logged; and the rows step k has added. -/
structure Authorized where
  answer : Option AuthorAnswer
  used : List UserAvp
  added : List UserAvp
  deriving DecidableEq, Repr

def refused : Authorized := ⟨some failAnswer, [], []⟩

/-- Step x: a request without a service gets all AVPs of the record. -/
def ownValues (rows : List UserAvp) : Authorized :=
  let own := rows.filter (·.avp ≠ [])
  if maxAvp ≤ own.length then ⟨none, [], []⟩
  else ⟨some ⟨.passAdd, some (own.map UserAvp.avp)⟩, [], own⟩

/-- A request for a service the gate has let through. -/
def respond (env : Env) (authoriz : Bool) (dbd : DbUser) (avpair : List Bytes) (n : Named) :
    Authorized :=
  match reviewLoop env authoriz dbd ⟨n.bavpair, 0, [], []⟩ (avpair.drop n.startAv) with
  | .error st => ⟨some failAnswer, st.used, []⟩
  | .ok st =>
    match addLoop (n.curService.getD []) (n.curProtocol.getD []) st dbd.avp with
    | none => ⟨none, st.used, []⟩
    | some st => ⟨some (finish avpair st), st.used, st.added⟩

/-- `process` on an authorization request, from the record of the user to the
call of `send_response`. -/
def authorize (env : Env) (authoriz : Bool) (dbd : DbUser) (req : AuthorRequest) : Authorized :=
  if !dbd.result then refused
  else
    match parseService req.avpair with
    | none => refused
    | some n =>
      if n.curService = none ∧ n.curProtocol = none then ownValues dbd.avp
      else if !gate (n.curService.getD []) (n.curProtocol.getD []) dbd.avp then refused
      else respond env authoriz dbd req.avpair n

end Tacppd
