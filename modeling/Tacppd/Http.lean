/-
# The files of the web server

`HttpHeader::get_request` takes the text of a request from its first line, and `HttpServer::process`
sends the file of that name: `HttpFile::openfile` puts it behind the directory of the client's
rights.  No one looks for `..` in it, nor for the slash in front.

So a request stays in its directory unless it leaves it in one of these two ways, and does not come
back (`http_confined_iff`).
-/
import Tacppd.Base64
import Tacppd.Lib.Paths

namespace Tacppd

open Paths

/-! ## The request -/

/-- The parts of `HttpHeaderData` that decide what is opened.  `User_Agent` is one of them, for it
lies behind `request`, which may be full. -/
structure HttpHeaderData where
  request : Bytes
  userAgent : Bytes
  username : Bytes
  password : Bytes

/-- The constructor. -/
def HttpHeaderData.new : HttpHeaderData :=
  ⟨List.replicate 100 0, List.replicate 80 0, [], []⟩

/-- Bytes that are written to the front of an array. -/
def overwritten (s cells : Bytes) : Bytes := s ++ cells.drop s.length

/-- The credentials in a text `user:password`, and nothing when one of them leaves its array. -/
def HttpHeaderData.withLogin (d : HttpHeaderData) (buf : Bytes) : Option HttpHeaderData :=
  let user := buf.takeWhile (· ≠ 58)
  let pwd := buf.drop (user.length + 1)
  if 50 ≤ user.length ∨ 50 ≤ pwd.length then none
  else some { d with username := user, password := pwd }

/-- What `get_request` does with one line. -/
def HttpHeaderData.readLine (d : HttpHeaderData) (line : Bytes) : Option HttpHeaderData :=
  let d :=
    if scompNum line (str "GET ") 4 then
      let text := ((line.drop 4).takeWhile fun c => c ≠ 63 && c ≠ 32).take 100
      { d with request := overwritten text d.request }
    else d
  let d :=
    if scompNum line (str "POST ") 5 then
      let text := ((line.drop 5).takeWhile (· ≠ 32)).take 100
      { d with request := overwritten text d.request }
    else d
  let d :=
    if scompNum line (str "User-Agent: ") 12 then
      -- `strncpy` fills up with zeros, and leaves the last byte as it is
      { d with userAgent := ((line.drop 12).take 79 ++ List.replicate 80 0).take 80 }
    else d
  if scompNum line (str "Authorization: ") 15 && decide (21 < line.length) then
    (base64Decode (line.drop 21)).bind fun sss => d.withLogin (snprintf 254 sss)
  else some d

/-- The loop of `get_request` over the lines, up to an empty one.  The first line may have one byte
less than the others; a longer one is not terminated in `char str[400]`. -/
def getRequestLoop (room : ℕ) (d : HttpHeaderData) : List Bytes → Option HttpHeaderData
  | [] => some d
  | line :: lines =>
    if room ≤ (cstr line).length then none
    else if cstr line = [] then some d
    else (d.readLine (cstr line)).bind fun d => getRequestLoop 400 d lines

/-- `HttpHeader::get_request`. -/
def getRequest (lines : List Bytes) : Option HttpHeaderData :=
  getRequestLoop 399 HttpHeaderData.new lines

/-- The file that is asked for. -/
def HttpHeaderData.file (d : HttpHeaderData) : Bytes :=
  let request := cstr (d.request ++ d.userAgent)
  if request.getLast? = some 47 then snprintf 199 (request ++ str "index.html") else request

/-! ## The files -/

/-- `dir`, the part of the web server that a client has the rights for. -/
inductive HttpDir
  | none
  | admin
  | user
  deriving DecidableEq, Repr

/-- The name of the last directory. -/
def HttpDir.name : HttpDir → Bytes
  | .none => str "http"
  | .admin => str "admin"
  | .user => str "user"

/-- What stands between `MAINDIR` and this name. -/
def HttpDir.front : HttpDir → Bytes
  | .none => []
  | .admin => str "/http"
  | .user => str "/http"

/-- What is between `MAINDIR` and the file. -/
def HttpDir.text : HttpDir → Bytes
  | .none => str "/http"
  | .admin => str "/http/admin"
  | .user => str "/http/user"

def invalidAuthFile : Bytes := str "/invalid_auth.html"

def invalidFile : Bytes := str "/invalid_file.html"

/-- What the server asks others: `MAINDIR`, `Manager::check` for the client's address, which files
there are, and whether it is built with Perl. -/
structure HttpServer where
  mainDir : Bytes
  check : Bytes → Bytes → Bool
  opens : Bytes → Bool
  perl : Bool

/-- The file has this ending. -/
def endsWith (file ending : Bytes) : Bool := scomp (file.drop (file.length - ending.length)) ending

/-- The endings of the files that are sent from the disk. -/
def served (file : Bytes) : Bool :=
  [str ".html", str ".htm", str ".gif", str ".jpg", str ".css", str ".class", str ".js"].any
    (endsWith file)

namespace HttpServer

variable (m : HttpServer)

/-- The path of `HttpFile::openfile`. -/
def path (dir : HttpDir) (f : Bytes) : Bytes := m.mainDir ++ dir.text ++ f

/-- `HttpFile::send_nofile`: the calls of `openfile`, each with `dir` and its argument.  The file is
opened to see whether it is there, and then to be sent. -/
def sendNofile (dir : HttpDir) : List (HttpDir × Bytes) :=
  if m.opens (m.path dir invalidFile) then [(dir, invalidFile), (dir, invalidFile)]
  else [(dir, invalidFile)]

/-- `HttpFile::send_file_from_file`. -/
def sendFileFromFile (dir : HttpDir) (file : Bytes) : List (HttpDir × Bytes) :=
  (dir, file) :: if m.opens (m.path dir file) then [] else m.sendNofile dir

/-- `HttpFile::send_file`; a Perl file is not opened by `openfile`. -/
def sendFile (dir : HttpDir) (file : Bytes) : List (HttpDir × Bytes) :=
  if served file then m.sendFileFromFile dir file
  else if m.perl && endsWith file (str ".pl") then []
  else m.sendNofile dir

/-- `HttpFile::send_authen`. -/
def sendAuthen (dir : HttpDir) : List (HttpDir × Bytes) := m.sendFileFromFile dir invalidAuthFile

/-- `HttpServer::authentication`, the check by database. -/
def authentication (_user _password : Bytes) : Bool := false

/-- `HttpServer::process`. -/
def process (lines : List Bytes) : Option (List (HttpDir × Bytes)) :=
  (getRequest lines).map fun d =>
    if d.username = [] ∨ d.password = [] then m.sendAuthen .none
    else if m.check d.username d.password then m.sendFile .admin d.file
    else if authentication d.username d.password then m.sendFile .user d.file
    else m.sendAuthen .none

end HttpServer

/-! ## Confinement -/

/-- The directory of a client's rights, from the root on. -/
def HttpServer.area (m : HttpServer) (cwd : List Bytes) (dir : HttpDir) : List Bytes :=
  resolve 47 46 cwd (m.mainDir ++ dir.text)

/-- What is opened lies under the directory. -/
def HttpServer.Confined (m : HttpServer) (cwd : List Bytes) (o : HttpDir × Bytes) : Prop :=
  m.area cwd o.1 <+: resolve 47 46 cwd (m.path o.1 o.2)

/-- What the text of a file does behind its first slash. -/
def fileRoute (f : Bytes) : Route UInt8 := route 46 (f.splitOn 47).tail

/-- The text does not leave the directory, or it comes back by the same names; and it begins with a
slash, but where it leaves the directory. -/
def StaysInside (area : List Bytes) (f : Bytes) : Prop :=
  ((fileRoute f).up = 0 → f.head? = some 47) ∧
    area.drop (area.length - (fileRoute f).up) <+: (fileRoute f).down

variable {m : HttpServer} {cwd : List Bytes} {dir : HttpDir} {f g : Bytes} {lines : List Bytes}

theorem HttpDir.text_eq (dir : HttpDir) : dir.text = dir.front ++ 47 :: dir.name := by
  cases dir <;> decide +kernel

/-- The name of a directory has no slash, and begins with another letter than a dot. -/
theorem HttpDir.name_spec (dir : HttpDir) :
    (47 : UInt8) ∉ dir.name ∧ ∃ c t, dir.name = c :: t ∧ c ≠ 46 := by
  cases dir <;> simp [name, str]

/-- The directory above that of a client's rights. -/
def HttpServer.above (m : HttpServer) (cwd : List Bytes) (dir : HttpDir) : List Bytes :=
  parentOf 47 46 cwd (m.mainDir ++ dir.front)

/-- A text without a slash that is put behind the last name makes another name of it. -/
theorem HttpServer.resolve_behind (m : HttpServer) (cwd : List Bytes) (dir : HttpDir)
    (hg : (47 : UInt8) ∉ g) :
    resolve 47 46 cwd (m.path dir g) = m.above cwd dir ++ [dir.name ++ g] := by
  obtain ⟨hname, c, t, hct, hdot⟩ := dir.name_spec
  have hpath : m.path dir g = (m.mainDir ++ dir.front) ++ 47 :: (dir.name ++ g) := by
    simp [path, dir.text_eq]
  rw [hpath]
  apply resolve_name
  · rw [List.mem_append, not_or]
    exact ⟨hname, hg⟩
  · apply @Name.of_head _ 46 _ c ?_ hdot
    rw [hct]
    rfl

theorem HttpServer.area_eq (m : HttpServer) (cwd : List Bytes) (dir : HttpDir) :
    m.area cwd dir = m.above cwd dir ++ [dir.name] := by
  have hnil := m.resolve_behind cwd dir (g := []) List.not_mem_nil
  rw [path, List.append_nil, List.append_nil] at hnil
  exact hnil

/-- A path goes on behind a slash. -/
theorem HttpServer.resolve_slash (m : HttpServer) (cwd : List Bytes) (dir : HttpDir) (g f : Bytes) :
    resolve 47 46 cwd (m.path dir (g ++ 47 :: f)) =
      walk 46 (resolve 47 46 cwd (m.path dir g)) (f.splitOn 47) := by
  have hne : m.path dir g ≠ [] := by simp [path, dir.text_eq]
  rw [← resolve_append_sep hne]
  simp only [path, List.append_assoc]

/-- Without a slash in front the first name goes into that of the directory. -/
theorem HttpServer.resolve_beside (m : HttpServer) (cwd : List Bytes) (dir : HttpDir)
    (hf : f ≠ []) (hhead : f.head? ≠ some 47) : ∃ g, g ≠ [] ∧
      resolve 47 46 cwd (m.path dir f) =
        (fileRoute f).apply (m.above cwd dir ++ [dir.name ++ g]) := by
  by_cases hslash : (47 : UInt8) ∈ f
  · obtain ⟨g, t, rfl, hg⟩ := List.eq_append_cons_of_mem hslash
    refine ⟨g, ?_, ?_⟩
    · rintro rfl
      exact hhead rfl
    · have hroute : fileRoute (g ++ 47 :: t) = route 46 (t.splitOn 47) := by
        rw [fileRoute, List.splitOn_append_cons_self_of_not_mem hg]
        rfl
      rw [m.resolve_slash, m.resolve_behind cwd dir hg, walk_eq, hroute]
  · refine ⟨f, hf, ?_⟩
    have hroute : fileRoute f = ⟨0, []⟩ := by
      rw [fileRoute, List.splitOn_eq_singleton hslash]
      rfl
    rw [m.resolve_behind cwd dir hslash, hroute]
    simp [Route.apply]

/-- **Where a file lies**: behind a slash the text is a route from the directory, and else from one
beside it. -/
theorem HttpServer.confined_iff (m : HttpServer) (cwd : List Bytes) (dir : HttpDir) (hf : f ≠ []) :
    m.Confined cwd (dir, f) ↔ StaysInside (m.area cwd dir) f := by
  rw [Confined, StaysInside]
  by_cases hhead : f.head? = some 47
  · obtain ⟨t, rfl⟩ := List.head?_eq_some_iff.mp hhead
    have hroute : fileRoute (47 :: t) = route 46 (t.splitOn 47) := by
      rw [fileRoute, ← List.nil_append (47 :: t), List.splitOn_append_cons_self]
      rfl
    have hwalk := m.resolve_slash cwd dir [] t
    have harea : resolve 47 46 cwd (m.path dir []) = m.area cwd dir := by
      rw [path, List.append_nil, area]
    rw [List.nil_append, harea] at hwalk
    rw [hwalk, prefix_walk_iff, hroute, and_iff_right fun _ => hhead]
  · obtain ⟨g, hg, hresolve⟩ := m.resolve_beside cwd dir hf hhead
    have hne : dir.name ≠ dir.name ++ g := fun h => hg (List.self_eq_append_right.mp h)
    rw [hresolve, m.area_eq, prefix_apply_neighbour_iff _ hne]
    exact and_congr_left' ⟨fun hup h0 => absurd h0 hup, fun h h0 => hhead (h h0)⟩

/-- **A text without two dots between slashes**, and with a slash in front, stays inside. -/
theorem staysInside_of_no_dots {area : List Bytes} (hhead : f.head? = some 47)
    (hdots : [46, 46] ∉ f.splitOn 47) : StaysInside area f := by
  have hup : (fileRoute f).up = 0 :=
    route_up_of_not_mem fun hmem => hdots (List.mem_of_mem_tail hmem)
  refine ⟨fun _ => hhead, ?_⟩
  rw [hup, Nat.sub_zero, List.drop_length]
  exact List.nil_prefix

/-! ## What a request opens -/

theorem ownFile_spec : invalidFile.head? = some 47 ∧ [46, 46] ∉ invalidFile.splitOn 47 ∧
    invalidAuthFile.head? = some 47 ∧ [46, 46] ∉ invalidAuthFile.splitOn 47 := by
  decide +kernel

/-- The server's own files lie where they should. -/
theorem HttpServer.confined_own (m : HttpServer) (cwd : List Bytes) (dir : HttpDir)
    (hf : f = invalidFile ∨ f = invalidAuthFile) : m.Confined cwd (dir, f) := by
  obtain ⟨hfile, hfileDots, hauth, hauthDots⟩ := ownFile_spec
  rcases hf with rfl | rfl
  · rw [m.confined_iff cwd dir fun hnil => by rw [hnil] at hfile; exact nomatch hfile]
    exact staysInside_of_no_dots hfile hfileDots
  · rw [m.confined_iff cwd dir fun hnil => by rw [hnil] at hauth; exact nomatch hauth]
    exact staysInside_of_no_dots hauth hauthDots

theorem HttpServer.mem_sendNofile {o : HttpDir × Bytes} (h : o ∈ m.sendNofile dir) :
    o = (dir, invalidFile) := by
  unfold sendNofile at h
  split at h
  all_goals simpa using h

theorem HttpServer.mem_sendFileFromFile {o : HttpDir × Bytes}
    (h : o ∈ m.sendFileFromFile dir f) : o = (dir, f) ∨ o = (dir, invalidFile) := by
  rw [sendFileFromFile] at h
  rcases List.mem_cons.mp h with h | h
  · exact .inl h
  · split at h
    · exact absurd h List.not_mem_nil
    · exact .inr (mem_sendNofile h)

/-- Only a file of the endings that are served is opened, besides the server's own. -/
theorem HttpServer.mem_sendFile {o : HttpDir × Bytes} (h : o ∈ m.sendFile dir f) :
    served f = true ∧ o = (dir, f) ∨ o = (dir, invalidFile) := by
  unfold sendFile at h
  split at h
  · next hserved =>
    rcases mem_sendFileFromFile h with h | h
    · exact .inl ⟨hserved, h⟩
    · exact .inr h
  · split at h
    · exact absurd h List.not_mem_nil
    · exact .inr (mem_sendNofile h)

theorem HttpServer.self_mem_sendFile (h : served f = true) : (dir, f) ∈ m.sendFile dir f := by
  rw [sendFile, if_pos h]
  exact List.mem_cons_self

/-- A file that is served has a name. -/
theorem ne_nil_of_served (h : served f = true) : f ≠ [] := by
  rintro rfl
  exact absurd h (by decide +kernel)

/-- A request opens files in the directory of its client only.  A request that `process` does not
come to the end of opens none, and is confined. -/
def HttpConfined (m : HttpServer) (cwd : List Bytes) (lines : List Bytes) : Prop :=
  ∀ opened, m.process lines = some opened → ∀ o ∈ opened, m.Confined cwd o

/-- **Which requests are confined**: all of a client who is not let in, and of one who is, those
for a file that is not sent from the disk and for one that stays inside the directory. -/
theorem http_confined_iff (m : HttpServer) (cwd : List Bytes) (lines : List Bytes) :
    HttpConfined m cwd lines ↔
      ∀ d, getRequest lines = some d → d.username ≠ [] → d.password ≠ [] →
        m.check d.username d.password = true → served d.file = true →
          StaysInside (m.area cwd .admin) d.file := by
  constructor
  · intro h d hd huser hpassword hcheck hserved
    rw [← m.confined_iff cwd .admin (ne_nil_of_served hserved)]
    refine h (m.sendFile .admin d.file) ?_ _ (HttpServer.self_mem_sendFile hserved)
    rw [HttpServer.process, hd, Option.map_some, if_neg (not_or.mpr ⟨huser, hpassword⟩),
      if_pos hcheck]
  · intro h opened hopened o ho
    obtain ⟨d, hd, rfl⟩ := Option.map_eq_some_iff.mp hopened
    -- a client who is not let in gets the server's own files
    have hauthen : o ∈ m.sendAuthen .none → m.Confined cwd o := by
      intro ho
      rcases HttpServer.mem_sendFileFromFile ho with rfl | rfl
      · exact m.confined_own cwd .none (.inr rfl)
      · exact m.confined_own cwd .none (.inl rfl)
    split at ho
    · exact hauthen ho
    · next hlogin =>
      rw [not_or] at hlogin
      split at ho
      · next hcheck =>
        rcases HttpServer.mem_sendFile ho with ⟨hserved, rfl⟩ | rfl
        · rw [m.confined_iff cwd .admin (ne_nil_of_served hserved)]
          exact h d hd hlogin.1 hlogin.2 hcheck hserved
        · exact m.confined_own cwd .admin (.inl rfl)
      · rw [HttpServer.authentication, if_neg Bool.false_ne_true] at ho
        exact hauthen ho

/-- A server in `/srv` that lets everyone in and has every file. -/
def openServer : HttpServer where
  mainDir := str "."
  check _ _ := true
  opens _ := true
  perl := false

/-- A request of the user `a` with the password `b`. -/
def requestOf (line : Bytes) : List Bytes := [line, str "Authorization: Basic YTpi", []]

/-- A text that goes up, and one without a slash in front. -/
theorem http_not_confined :
    ¬ HttpConfined openServer [str "srv"] (requestOf (str "GET /../../x.html HTTP/1.0")) ∧
    ¬ HttpConfined openServer [str "srv"] (requestOf (str "GET x.html HTTP/1.0")) ∧
    openServer.path .admin (str "x.html") = str "./http/adminx.html" := by
  have hup : openServer.process (requestOf (str "GET /../../x.html HTTP/1.0")) =
      some [(.admin, str "/../../x.html")] := by decide +kernel
  have hbeside : openServer.process (requestOf (str "GET x.html HTTP/1.0")) =
      some [(.admin, str "x.html")] := by decide +kernel
  refine ⟨fun h => ?_, fun h => ?_, by decide +kernel⟩
  · have hconfined := h _ hup _ (List.mem_singleton_self _)
    rw [HttpServer.Confined] at hconfined
    exact absurd hconfined (by decide +kernel)
  · have hconfined := h _ hbeside _ (List.mem_singleton_self _)
    rw [HttpServer.Confined] at hconfined
    exact absurd hconfined (by decide +kernel)

end Tacppd
