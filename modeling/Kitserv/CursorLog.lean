import Kitserv.Basis.Logged
import Kitserv.Recv
import Kitserv.UrlEncoding

/-! `kitserv_http_recv_request` once more, with a log: the bytes of the header buffer that it touches,
and the values of its variables at the points that it passes. Without its log it is `recvRequest`. -/
namespace Kitserv

open Memory Logged

/-- An entry of the log, with `req_headers_len` as it stands there. -/
inductive Mark where
  | received (len count : Nat)
  | access (len : Nat) (a : Access)
  | point (len : Nat) (mem : Bytes) (req : Request) (p r : Nat)
  deriving DecidableEq, Repr

abbrev Parser (α : Type) := Writer (List Mark) α

section Touches

variable {len : Nat} {mem : Bytes} {p r : Nat}

def passes (len : Nat) (mem : Bytes) (req : Request) (p r : Nat) : Parser Unit :=
  tell [.point len mem req p r]

def look (len i : Nat) : Parser Unit := tell [.access len (.read i)]

/-- A function of the C library that gets the string at `p` may look at it up to its terminator. -/
def lookString (len : Nat) (mem : Bytes) (p : Nat) : Parser Unit :=
  tell ((sscanfReads mem p).map (.access len))

def putNul (len : Nat) (mem : Bytes) (i : Nat) : Parser Bytes := do
  tell [.access len (.write i)]
  return mem.set i 0

@[simp] theorem value_putNul (i : Nat) : value (putNul len mem i) = mem.set i 0 := rfl

/-- memcmp may look at as many bytes as the literal has. -/
def bufscmpLogged (len : Nat) (mem : Bytes) (p : Nat) (target : String) : Parser Bool := do
  tell ((List.range' p (ascii target).length).map fun i => .access len (.read i))
  return bufscmp mem p target

@[simp] theorem value_bufscmp (target : String) :
    value (bufscmpLogged len mem p target) = bufscmp mem p target := rfl

def decodeLogged (len : Nat) (mem : Bytes) (str : Nat) : Parser Bytes := do
  let (mem, log) := urlDecodeLogged mem str str []
  tell (log.map (.access len))
  return mem

@[simp] theorem value_decode (str : Nat) : value (decodeLogged len mem str) = urlDecode mem str :=
  urlDecodeLogged_mem mem str str []

end Touches

section Scan

variable {len : Nat} {mem : Bytes} {req : Request} {p r : Nat}

def scanLogged (stop : Byte) (len : Nat) (mem : Bytes) (req : Request) (p r : Nat) : Parser Nat := do
  passes len mem req p r
  if len ≤ r then return r
  else
    look len r
    match mem[r]? with
    | none => return r
    | some b => if b == stop then return r else scanLogged stop len mem req p (r + 1)
termination_by len - r

@[simp] theorem value_scan (stop : Byte) :
    value (scanLogged stop len mem req p r) = scanTo (· == stop) mem len r := by
  induction room : len - r generalizing r with
  | zero =>
    rw [scanLogged, scanTo_eq]
    have past : len ≤ r := by omega
    simp [past]
  | succ n ih =>
    rw [scanLogged, scanTo_eq]
    have ahead : ¬ len ≤ r := by omega
    simp only [value_bind, if_neg ahead]
    cases mem[r]? with
    | none => rfl
    | some b =>
      simp only [value_ite, value_pure]
      rw [ih (by omega)]

end Scan

section Line

variable {len : Nat} {mem : Bytes} {req : Request} {p r : Nat}

def methodAtLogged (len : Nat) (mem : Bytes) (p r : Nat) : Parser (Option HttpMethod) := do
  match r - p with
  | 3 =>
    if ← bufscmpLogged len mem p "GET " then return some .get
    else if ← bufscmpLogged len mem p "PUT " then return some .put
    else return none
  | 4 =>
    if ← bufscmpLogged len mem p "HEAD " then return some .head
    else if ← bufscmpLogged len mem p "POST " then return some .post
    else return none
  | 6 => if ← bufscmpLogged len mem p "DELETE " then return some .delete else return none
  | _ => return none

@[simp] theorem value_methodAt : value (methodAtLogged len mem p r) = methodAt mem p r := by
  simp only [methodAtLogged, methodAt]
  generalize r - p = size
  split
  · simp only [value_bind, value_ite, value_pure]
    rfl
  · simp only [value_bind, value_ite, value_pure]
    rfl
  · simp only [value_bind, value_ite, value_pure]
    rfl
  · simp

def reqMethodLogged (mem : Bytes) (len : Nat) (req : Request) (p r : Nat) : Parser ParseStep := do
  let r ← scanLogged 32 len mem req p r
  if len ≤ r then return .readMore .reqMethod mem req p r
  else match ← methodAtLogged len mem p r with
    | some m => return .goto .reqPath mem { req with method := m } (r + 1) (r + 1)
    | none => return .fail mem { req with method := .get } .http501NotImplemented

theorem value_reqMethod : value (reqMethodLogged mem len req p r) = reqMethod mem len req p r := by
  simp only [reqMethodLogged, reqMethod, value_bind, value_scan, value_ite, value_pure, value_methodAt]
  cases methodAt mem p (scanTo (· == 32) mem len r) <;> rfl

def checkTarget (len : Nat) (mem : Bytes) (r q : Nat) (s : Option Nat) :
    Parser (Option (Option Nat)) := do
  if q < r then
    look len q
    match mem[q]? with
    -- outside of the buffer, where r never is
    | none => return some (some (s.getD q))
    | some b =>
      if !isprint b then return none
      else checkTarget len mem r (q + 1) (if s = none ∧ b = 63 then some q else s)
  else return some s
termination_by r - q

theorem value_checkTarget (q : Nat) (s : Option Nat) :
    value (checkTarget len mem r q s) =
      if (slice mem q r).any (fun b => !isprint b) then none
      else some (s.or
        (if scanTo (· == 63) mem r q < r then some (scanTo (· == 63) mem r q) else none)) := by
  induction room : r - q generalizing q s with
  | zero =>
    have past : r ≤ q := by omega
    rw [checkTarget, if_neg (Nat.not_lt.mpr past), scanTo_eq, if_pos past,
      if_neg (Nat.not_lt.mpr past), slice, room]
    simp
  | succ n ih =>
    have more : q < r := by omega
    rw [checkTarget, if_pos more, scanTo_eq, if_neg (Nat.not_le.mpr more)]
    cases cell : mem[q]? with
    | none =>
      rw [slice_outside cell]
      cases s <;> simp [more]
    | some b =>
      simp only [value_bind, value_ite, value_pure, slice_cons cell more, List.any_cons]
      rw [ih _ _ (by omega)]
      cases isprint b with
      | false => rfl
      | true =>
        simp only [Bool.not_true, Bool.false_or, Bool.false_eq_true, if_false]
        congr 2
        by_cases mark : b = 63
        · cases s <;> simp [mark, more]
        · cases s <;> simp [mark]

def storePathLogged (len : Nat) (mem : Bytes) (req : Request) (p r : Nat) (s : Option Nat) :
    Parser (Bytes × Request) := do
  let mem ← putNul len mem r
  passes len mem req p r
  match s with
  | some s =>
    let mem ← putNul len mem s
    passes len mem req p r
    let mem ← decodeLogged len mem (s + 1)
    let req := { req with query := some (s + 1) }
    passes len mem req p r
    let mem ← decodeLogged len mem p
    return (mem, { req with path := some p })
  | none =>
    let mem ← decodeLogged len mem p
    return (mem, { req with path := some p })

theorem value_storePath (s : Nat) :
    value (storePathLogged len mem req p r (if s < r then some s else none)) =
      if s < r then
        let mem' := urlDecode ((mem.set r 0).set s 0) (s + 1)
        (urlDecode mem' p, { req with query := some (s + 1), path := some p })
      else (urlDecode (mem.set r 0) p, { req with path := some p }) := by
  by_cases found : s < r
  · simp only [storePathLogged, if_pos found, value_bind, value_putNul, value_decode, value_pure]
  · simp only [storePathLogged, if_neg found, value_bind, value_putNul, value_decode, value_pure]

def traversalLogged (len : Nat) (mem : Bytes) (path : Nat) : Parser Bool := do
  lookString len mem path
  let s := cString mem path
  match strstr s (ascii "..") with
  | none => return false
  | some found =>
    look len (path + found + 2)
    if s[found + 2]? = none ∨ s[found + 2]? = some 47 then
      if found = 0 then return true
      else
        look len (path + found - 1)
        return s[found - 1]? = some 47
    else return false

@[simp] theorem value_traversal :
    value (traversalLogged len mem p) = attemptedPathTraversal (cString mem p) := by
  simp only [traversalLogged, attemptedPathTraversal, value_bind]
  cases strstr (cString mem p) (ascii "..") with
  | none => rfl
  | some found =>
    simp only [value_bind, value_ite, value_pure]
    split
    · by_cases first : found = 0 <;> simp [first]
    · rfl

def reqPathLogged (mem : Bytes) (len : Nat) (req : Request) (p r : Nat) : Parser ParseStep := do
  let r ← scanLogged 32 len mem req p r
  if len ≤ r then return .readMore .reqPath mem req p r
  else match ← checkTarget len mem r p none with
    | none => return .fail mem req .http400BadRequest
    | some s =>
      let (mem, req) ← storePathLogged len mem req p r s
      passes len mem req p r
      if ← traversalLogged len mem p then return .fail mem req .http400BadRequest
      else return .goto .reqVersion mem req (r + 1) (r + 1)

theorem value_reqPath : value (reqPathLogged mem len req p r) = reqPath mem len req p r := by
  simp only [reqPathLogged, reqPath, value_bind, value_ite, value_pure, value_checkTarget]
  simp only [value_scan]
  generalize scanTo (· == 32) mem len r = r'
  split
  · rfl
  by_cases hidden : (slice mem p r').any (fun b => !isprint b) = true
  · simp only [if_pos hidden, value_pure]
  · simp only [if_neg hidden, Option.none_or, value_bind, value_ite, value_pure]
    simp only [value_traversal, value_storePath]
    rfl

def reqVersionLogged (mem : Bytes) (len : Nat) (req : Request) (p r : Nat) : Parser ParseStep := do
  let r ← scanLogged 13 len mem req p r
  if len ≤ r then return .readMore .reqVersion mem req p r
  else if r - p < 5 then return .fail mem req .http400BadRequest
  else if !(← bufscmpLogged len mem p "HTTP/") then return .fail mem req .http400BadRequest
  else
    let p := p + 5
    passes len mem req p r
    if r - p = 3 then
      if ← bufscmpLogged len mem p "1.1" then
        return .goto .reqVersionLf mem { req with version := .http11 } (r + 1) (r + 1)
      else if ← bufscmpLogged len mem p "1.0" then
        return .goto .reqVersionLf mem { req with version := .http10 } (r + 1) (r + 1)
      else return .fail mem req .http505VersionNotSupported
    else return .fail mem req .http505VersionNotSupported

theorem value_reqVersion :
    value (reqVersionLogged mem len req p r) = reqVersion mem len req p r := by
  simp only [reqVersionLogged, reqVersion, value_bind, value_ite, value_pure]
  simp only [value_scan, value_bufscmp]
  generalize scanTo (· == 13) mem len r = r'
  split
  · rfl
  by_cases short : r' - p < 5
  · simp only [short, true_or, if_true]
  by_cases protocol : bufscmp mem p "HTTP/" = true
  · simp only [short, protocol, Bool.not_true, Bool.false_eq_true, not_true, or_false, if_false]
    by_cases three : r' - (p + 5) = 3
    · simp only [three, true_and, if_true]
    · simp only [three, false_and, if_false]
  · simp [short, protocol]

def reqVersionLfLogged (mem : Bytes) (len : Nat) (req : Request) (p r : Nat) : Parser ParseStep := do
  passes len mem req p r
  if len ≤ r then return .readMore .reqVersionLf mem req p r
  else
    look len r
    if mem[r]? ≠ some 10 then return .fail mem req .http400BadRequest
    else return .goto .reqHead mem req (r + 1) (r + 1)

theorem value_reqVersionLf :
    value (reqVersionLfLogged mem len req p r) = reqVersionLf mem len req p r := by
  simp only [reqVersionLfLogged, reqVersionLf, value_bind, value_ite, value_pure]

end Line

section Headers

variable {len : Nat} {mem : Bytes} {req : Request} {p r : Nat}

def skipBlanksLogged (len : Nat) (mem : Bytes) (q : Nat) : Parser Nat := do
  look len q
  if h : q < mem.length then
    if mem[q] == 32 || mem[q] == 9 then skipBlanksLogged len mem (q + 1) else return q
  else return q
termination_by mem.length - q

@[simp] theorem value_skipBlanks (q : Nat) :
    value (skipBlanksLogged len mem q) = skipBlanks mem q := by
  induction room : mem.length - q generalizing q with
  | zero =>
    have outside : mem.length ≤ q := by omega
    rw [skipBlanksLogged, skipBlanks, List.drop_eq_nil_of_le outside]
    simp [Nat.not_lt.mpr outside]
  | succ n ih =>
    have inside : q < mem.length := by omega
    rw [skipBlanksLogged, skipBlanks, List.drop_eq_getElem_cons inside]
    simp only [dif_pos inside, value_bind, value_ite, value_pure, List.takeWhile_cons]
    rw [ih _ (by omega), skipBlanks]
    split
    · simp only [List.length_cons]
      omega
    · rfl

def findHeader (len : Nat) (mem : Bytes) (p s : Nat) :
    List (Bytes × Nat × HeaderFunc) → Parser (Option (Bytes × Nat × HeaderFunc))
  | [] => return none
  | h :: rest => do
    if s - p == h.2.1 then
      lookString len mem p
      if sameNoCase (cString mem p) h.1 then return some h else findHeader len mem p s rest
    else findHeader len mem p s rest

@[simp] theorem value_findHeader (s : Nat) (table : List (Bytes × Nat × HeaderFunc)) :
    value (findHeader len mem p s table) =
      table.find? fun h => s - p == h.2.1 && sameNoCase (cString mem p) h.1 := by
  induction table with
  | nil => rfl
  | cons h rest ih =>
    simp only [findHeader, value_bind, value_ite, value_pure, ih, List.find?_cons]
    cases s - p == h.2.1 with
    | false => rfl
    | true => cases sameNoCase (cString mem p) h.1 <;> rfl

def processHeaderLogged (len : Nat) (mem : Bytes) (req : Request) (p s value : Nat) :
    Parser (Request × Option HttpStatus) := do
  match ← findHeader len mem p s headers with
  | some h =>
    lookString len mem value
    return h.2.2 mem req value
  | none => return (req, none)

@[simp] theorem value_processHeader (s q : Nat) :
    value (processHeaderLogged len mem req p s q) = processHeader mem req p s q := by
  simp only [processHeaderLogged, processHeader, value_bind, value_findHeader]
  cases headers.find? fun h => s - p == h.2.1 && sameNoCase (cString mem p) h.1 <;> rfl

def reqHeadLogged (mem : Bytes) (len : Nat) (req : Request) (p r : Nat) : Parser ParseStep := do
  let r ← scanLogged 13 len mem req p r
  if len ≤ r then return .readMore .reqHead mem req p r
  else if r ≠ p then
    let mem ← putNul len mem r
    passes len mem req p r
    lookString len mem p
    match strchr mem p 58 with
    | none => return .fail mem req .http400BadRequest
    | some s =>
      let mem ← putNul len mem s
      passes len mem req p r
      let q ← skipBlanksLogged len mem (s + 1)
      let (req, status) ← processHeaderLogged len mem req p s q
      passes len mem req p r
      match status with
      | some status => return .fail mem req status
      | none => return .goto .reqHeadLf mem req (r + 1) (r + 1)
  else return .goto .reqHeadLf mem req p (r + 1)

theorem value_reqHead : value (reqHeadLogged mem len req p r) = reqHead mem len req p r := by
  simp only [reqHeadLogged, reqHead, value_bind, value_ite, value_pure]
  simp only [value_scan, value_putNul]
  generalize scanTo (· == 13) mem len r = r'
  split
  · rfl
  split
  · cases strchr (mem.set r' 0) p 58 with
    | none => rfl
    | some s =>
      simp only [value_bind, value_putNul, value_skipBlanks, value_processHeader]
      generalize processHeader ((mem.set r' 0).set s 0) req p s
        (skipBlanks ((mem.set r' 0).set s 0) (s + 1)) = result
      obtain ⟨req, _ | status⟩ := result
      · rfl
      · rfl
  · rfl

def reqHeadLfLogged (mem : Bytes) (len : Nat) (req : Request) (p r : Nat) : Parser ParseStep := do
  passes len mem req p r
  if len ≤ r then return .readMore .reqHeadLf mem req p r
  else
    look len r
    if mem[r]? ≠ some 10 then return .fail mem req .http400BadRequest
    else if r = p then return .goto .reqHead mem req (r + 1) (r + 1)
    else return .finish mem req (r + 1)

theorem value_reqHeadLf :
    value (reqHeadLfLogged mem len req p r) = reqHeadLf mem len req p r := by
  simp only [reqHeadLfLogged, reqHeadLf, value_bind, value_ite, value_pure]

end Headers

section Switch

variable {len : Nat} {mem : Bytes} {req : Request} {p r : Nat}

def parseStepLogged (len : Nat) : ParseState → Bytes → Request → Nat → Nat → Parser ParseStep
  | .new, mem, req, _, _ => return .goto .reqMethod mem req 0 0
  | .reqMethod, mem, req, p, r => reqMethodLogged mem len req p r
  | .reqPath, mem, req, p, r => reqPathLogged mem len req p r
  | .reqVersion, mem, req, p, r => reqVersionLogged mem len req p r
  | .reqVersionLf, mem, req, p, r => reqVersionLfLogged mem len req p r
  | .reqHead, mem, req, p, r => reqHeadLogged mem len req p r
  | .reqHeadLf, mem, req, p, r => reqHeadLfLogged mem len req p r

@[simp] theorem value_parseStep (state : ParseState) :
    value (parseStepLogged len state mem req p r) = parseStep len state mem req p r := by
  cases state with
  | new => rfl
  | reqMethod => exact value_reqMethod
  | reqPath => exact value_reqPath
  | reqVersion => exact value_reqVersion
  | reqVersionLf => exact value_reqVersionLf
  | reqHead => exact value_reqHead
  | reqHeadLf => exact value_reqHeadLf

def parseLogged (len : Nat) (state : ParseState) (mem : Bytes) (req : Request) (p r : Nat) :
    Parser ParseEnd := do
  let step := parseStepLogged len state mem req p r
  tell (log step)
  match _step : value step with
  | .goto state mem req p r => parseLogged len state mem req p r
  | .readMore state mem req p r => return .readMore state mem req p r
  | .finish mem req p =>
    passes len mem req p p
    return .finish mem req p
  | .fail mem req status => return .fail mem req status
termination_by parseMeasure len state r
decreasing_by exact parseStep_decreases ((value_parseStep _).symm.trans _step)

theorem parseLogged_eq (state : ParseState) :
    parseLogged len state mem req p r = (do
      tell (log (parseStepLogged len state mem req p r))
      match parseStep len state mem req p r with
      | .goto state mem req p r => parseLogged len state mem req p r
      | .readMore state mem req p r => return .readMore state mem req p r
      | .finish mem req p =>
        passes len mem req p p
        return .finish mem req p
      | .fail mem req status => return .fail mem req status) := by
  rw [parseLogged]
  congr 1
  funext _
  split <;> rename_i step <;> rw [← value_parseStep, step]

@[simp] theorem value_parse (state : ParseState) :
    value (parseLogged len state mem req p r) = parse len state mem req p r := by
  fun_induction parse len state mem req p r with
  | case1 state mem req p r state' mem' req' p' r' step ih =>
    rw [parseLogged_eq]
    simp only [value_bind, step]
    exact ih
  | case2 state mem req p r state' mem' req' p' r' step =>
    rw [parseLogged_eq]
    simp only [value_bind, value_pure, step]
  | case3 state mem req p r mem' req' p' step =>
    rw [parseLogged_eq]
    simp only [value_bind, value_pure, step]
  | case4 state mem req p r mem' req' status step =>
    rw [parseLogged_eq]
    simp only [value_bind, value_pure, step]

end Switch

section Rounds

variable {c : Client} {k : Kernel} {p r : Option Nat}

def afterSwitch (c : Client) (k : Kernel) : ParseEnd → Round
  | .readMore state mem req p r =>
    .again { c with reqHeaders := mem, ta := { c.ta with parseState := state, req := req } } k
      (some p) (some r)
  | .finish mem req p =>
    let ta := { c.ta with
      req := req
      reqPayload := some p
      reqPayloadLen := c.reqHeadersLen - p
      state := .serve }
    .stop { rc := 0
            client := { c with reqHeaders := mem, ta := ta }
            kernel := k.emit (.request (HeadInfo.ofRequest mem req)) }
  | .fail mem req status =>
    let ta := { c.ta with req := req, resp := { c.ta.resp with status := status } }
    .stop { rc := -1, client := { c with reqHeaders := mem, ta := ta }, kernel := k }

def recvParseLogged (c : Client) (k : Kernel) (p r : Option Nat) : Parser Round := do
  let parsed ← parseLogged c.reqHeadersLen c.ta.parseState c.reqHeaders c.ta.req (p.getD 0) (r.getD 0)
  return afterSwitch c k parsed

@[simp] theorem value_recvParse : value (recvParseLogged c k p r) = recvParse c k p r := by
  simp only [recvParseLogged, recvParse, value_bind, value_pure, value_parse]
  cases parse c.reqHeadersLen c.ta.parseState c.reqHeaders c.ta.req (p.getD 0) (r.getD 0) <;> rfl

def recvRoundLogged (c : Client) (k : Kernel) (p r : Option Nat) : Parser Round := do
  match k.read (httpBufsz - c.reqHeadersLen) with
  | (.wouldBlock, k) =>
    if parsePastEnd c r then
      return .stop { rc := 0
                     client := { c with ta := { c.ta with reqParseBlk := p, reqParseIter := r } }
                     kernel := k }
    else recvParseLogged c k p r
  | (.failed _, k) => return .stop { rc := -1, client := c.setStatus .xHangup, kernel := k }
  | (.data [], k) =>
    if httpBufsz ≤ c.reqHeadersLen then
      if parsePastEnd c r then
        return .stop { rc := -1
                       client := c.setStatus .http431RequestHeaderFieldsTooLarge
                       kernel := k }
      else recvParseLogged c k p r
    else return .stop { rc := -1, client := c.setStatus .xHangup, kernel := k }
  | (.data (b :: bs), k) =>
    tell [.received c.reqHeadersLen (b :: bs).length]
    let c := { c with
      reqHeaders := overwrite c.reqHeaders c.reqHeadersLen (b :: bs)
      reqHeadersLen := c.reqHeadersLen + (b :: bs).length }
    recvParseLogged c k p r

@[simp] theorem value_recvRound : value (recvRoundLogged c k p r) = recvRound c k p r := by
  unfold recvRoundLogged recvRound
  cases k.read (httpBufsz - c.reqHeadersLen) with
  | mk res k =>
    cases res with
    | wouldBlock => simp only [value_ite, value_pure, value_recvParse]
    | failed code => rfl
    | data bs =>
      cases bs with
      | nil => simp only [value_ite, value_pure, value_recvParse]
      | cons b bs => simp only [value_bind, value_recvParse]

def recvLoopLogged (c : Client) (k : Kernel) (p r : Option Nat) : Parser Outcome := do
  let round := recvRoundLogged c k p r
  tell (log round)
  match _round : value round with
  | .stop o => return o
  | .again c k p r => recvLoopLogged c k p r
termination_by recvMeasure c r
decreasing_by exact recvRound_decreases (value_recvRound.symm.trans _round)

theorem recvLoopLogged_eq (c : Client) (k : Kernel) (p r : Option Nat) :
    recvLoopLogged c k p r = (do
      tell (log (recvRoundLogged c k p r))
      match recvRound c k p r with
      | .stop o => return o
      | .again c k p r => recvLoopLogged c k p r) := by
  rw [recvLoopLogged]
  congr 1
  funext _
  split <;> rename_i round <;> rw [← value_recvRound, round]

@[simp] theorem value_recvLoop : value (recvLoopLogged c k p r) = recvLoop c k p r := by
  fun_induction recvLoop c k p r with
  | case1 c k p r o round =>
    rw [recvLoopLogged_eq]
    simp only [value_bind, value_pure, round]
  | case2 c k p r c' k' p' r' round ih =>
    rw [recvLoopLogged_eq]
    simp only [value_bind, round]
    exact ih

def recvRequestLogged (c : Client) (k : Kernel) : Parser Outcome :=
  recvLoopLogged c k c.ta.reqParseBlk c.ta.reqParseIter

@[simp] theorem value_recvRequest : value (recvRequestLogged c k) = recvRequest c k := value_recvLoop

end Rounds

end Kitserv
