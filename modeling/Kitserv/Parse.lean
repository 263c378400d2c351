import Kitserv.UrlDecode

namespace Kitserv

open Memory

def attemptedPathTraversal (path : Bytes) : Bool :=
  match strstr path (ascii "..") with
  | none => false
  | some found =>
    -- the byte after the dots is NUL or '/'
    if path[found + 2]? = none ∨ path[found + 2]? = some 47 then
      found = 0 ∨ path[found - 1]? = some 47
    else false

abbrev HeaderFunc := Bytes → Request → Nat → Request × Option HttpStatus

def parseHeaderCookie : HeaderFunc := fun _ req value => ({ req with freshCookies := some value }, none)

def parseHeaderRange : HeaderFunc := fun _ req value =>
  ({ req with rangeRequested := true, range := some value }, none)

def parseHeaderIfModifiedSince : HeaderFunc := fun _ req value =>
  ({ req with modifiedSince := some value }, none)

def parseHeaderContentLength : HeaderFunc := fun mem req value =>
  let (length, ok) := strtonum (cString mem value)
  let req := { req with contentLen := length }
  if ¬ ok ∨ req.contentLen < 0 then (req, some .http400BadRequest) else (req, none)

def parseHeaderContentType : HeaderFunc := fun _ req value =>
  ({ req with mimetype := some value }, none)

def parseHeaderContentDisposition : HeaderFunc := fun _ req value =>
  ({ req with disposition := some value }, none)

def headers : List (Bytes × Nat × HeaderFunc) :=
  [(ascii "cookie", 6, parseHeaderCookie),
   (ascii "range", 5, parseHeaderRange),
   (ascii "if-modified-since", 17, parseHeaderIfModifiedSince),
   (ascii "content-length", 14, parseHeaderContentLength),
   (ascii "content-type", 12, parseHeaderContentType),
   (ascii "content-disposition", 19, parseHeaderContentDisposition)]

/-- Where control goes after one case of the switch: to the next case, to `read_more` with the
parse state to come back to, out of the switch, or to a return of -1. -/
inductive ParseStep where
  | goto (state : ParseState) (mem : Bytes) (req : Request) (p r : Nat)
  | readMore (state : ParseState) (mem : Bytes) (req : Request) (p r : Nat)
  | finish (mem : Bytes) (req : Request) (p : Nat)
  | fail (mem : Bytes) (req : Request) (status : HttpStatus)
  deriving DecidableEq, Repr

/-- The switch on `r - p` of HTTP_PS_REQ_METHOD. -/
def methodAt (mem : Bytes) (p r : Nat) : Option HttpMethod :=
  match r - p with
  | 3 =>
    if bufscmp mem p "GET " then some .get
    else if bufscmp mem p "PUT " then some .put
    else none
  | 4 =>
    if bufscmp mem p "HEAD " then some .head
    else if bufscmp mem p "POST " then some .post
    else none
  | 6 => if bufscmp mem p "DELETE " then some .delete else none
  | _ => none

def reqMethod (mem : Bytes) (len : Nat) (req : Request) (p r : Nat) : ParseStep :=
  let r := scanTo (· == 32) mem len r
  if len ≤ r then .readMore .reqMethod mem req p r
  else match methodAt mem p r with
    | some m => .goto .reqPath mem { req with method := m } (r + 1) (r + 1)
    | none => .fail mem { req with method := .get } .http501NotImplemented

/-- Terminate and decode path and query, with `r` at the space after them. -/
def storePath (mem : Bytes) (req : Request) (p r : Nat) : Bytes × Request :=
  let s := p + (slice mem p r).findIdx (· == 63)
  let mem' := mem.set r 0
  if s < r then
    let mem' := urlDecode (mem'.set s 0) (s + 1)
    (urlDecode mem' p, { req with query := some (s + 1), path := some p })
  else (urlDecode mem' p, { req with path := some p })

def reqPath (mem : Bytes) (len : Nat) (req : Request) (p r : Nat) : ParseStep :=
  let r := scanTo (· == 32) mem len r
  if len ≤ r then .readMore .reqPath mem req p r
  else if (slice mem p r).any fun b => !isprint b then .fail mem req .http400BadRequest
  else
    let (mem, req) := storePath mem req p r
    if attemptedPathTraversal (cString mem p) then .fail mem req .http400BadRequest
    else .goto .reqVersion mem req (r + 1) (r + 1)

def reqVersion (mem : Bytes) (len : Nat) (req : Request) (p r : Nat) : ParseStep :=
  let r := scanTo (· == 13) mem len r
  if len ≤ r then .readMore .reqVersion mem req p r
  else if r - p < 5 ∨ ¬ bufscmp mem p "HTTP/" then .fail mem req .http400BadRequest
  else
    let p := p + 5
    if r - p = 3 ∧ bufscmp mem p "1.1" then
      .goto .reqVersionLf mem { req with version := .http11 } (r + 1) (r + 1)
    else if r - p = 3 ∧ bufscmp mem p "1.0" then
      .goto .reqVersionLf mem { req with version := .http10 } (r + 1) (r + 1)
    else .fail mem req .http505VersionNotSupported

def reqVersionLf (mem : Bytes) (len : Nat) (req : Request) (p r : Nat) : ParseStep :=
  if len ≤ r then .readMore .reqVersionLf mem req p r
  else if mem[r]? ≠ some 10 then .fail mem req .http400BadRequest
  else .goto .reqHead mem req (r + 1) (r + 1)

def skipBlanks (mem : Bytes) (q : Nat) : Nat :=
  q + ((mem.drop q).takeWhile fun b => b == 32 || b == 9).length

def processHeader (mem : Bytes) (req : Request) (p s value : Nat) : Request × Option HttpStatus :=
  match headers.find? fun h => s - p == h.2.1 && sameNoCase (cString mem p) h.1 with
  | some h => h.2.2 mem req value
  | none => (req, none)

def reqHead (mem : Bytes) (len : Nat) (req : Request) (p r : Nat) : ParseStep :=
  let r := scanTo (· == 13) mem len r
  if len ≤ r then .readMore .reqHead mem req p r
  else if r ≠ p then
    let mem := mem.set r 0
    match strchr mem p 58 with
    | none => .fail mem req .http400BadRequest
    | some s =>
      let mem := mem.set s 0
      match processHeader mem req p s (skipBlanks mem (s + 1)) with
      | (req, some status) => .fail mem req status
      | (req, none) => .goto .reqHeadLf mem req (r + 1) (r + 1)
  else
    -- p stays behind, so that the next case can tell an empty line from a header
    .goto .reqHeadLf mem req p (r + 1)

def reqHeadLf (mem : Bytes) (len : Nat) (req : Request) (p r : Nat) : ParseStep :=
  if len ≤ r then .readMore .reqHeadLf mem req p r
  else if mem[r]? ≠ some 10 then .fail mem req .http400BadRequest
  else if r = p then .goto .reqHead mem req (r + 1) (r + 1)
  else .finish mem req (r + 1)

def parseStep (len : Nat) : ParseState → Bytes → Request → Nat → Nat → ParseStep
  | .new, mem, req, _, _ => .goto .reqMethod mem req 0 0
  | .reqMethod, mem, req, p, r => reqMethod mem len req p r
  | .reqPath, mem, req, p, r => reqPath mem len req p r
  | .reqVersion, mem, req, p, r => reqVersion mem len req p r
  | .reqVersionLf, mem, req, p, r => reqVersionLf mem len req p r
  | .reqHead, mem, req, p, r => reqHead mem len req p r
  | .reqHeadLf, mem, req, p, r => reqHeadLf mem len req p r

/-- Bytes left to scan; HTTP_PS_NEW starts over from the front of the buffer. -/
def parseMeasure (len : Nat) : ParseState → Nat → Nat
  | .new, _ => len + 1
  | _, r => len - r

theorem parseStep_goto {len : Nat} {state state' : ParseState} {mem mem' : Bytes}
    {req req' : Request} {p r p' r' : Nat} (started : state ≠ .new)
    (h : parseStep len state mem req p r = .goto state' mem' req' p' r') :
    state' ≠ .new ∧ r < len ∧ r < r' := by
  have scanned (stop : Byte → Bool) (inside : ¬ len ≤ scanTo stop mem len r) :
      r < len ∧ r < scanTo stop mem len r + 1 := by
    have : r ≤ scanTo stop mem len r := le_scanTo stop
    omega
  cases state with
  | new => exact absurd rfl started
  | reqMethod =>
    simp only [parseStep, reqMethod] at h
    split at h
    · cases h
    · rename_i inside
      split at h
      · cases h; exact ⟨by simp, scanned _ inside⟩
      · cases h
  | reqPath =>
    simp only [parseStep, reqPath] at h
    split at h
    · cases h
    · rename_i inside
      split at h
      · cases h
      · split at h
        · cases h
        · cases h; exact ⟨by simp, scanned _ inside⟩
  | reqVersion =>
    simp only [parseStep, reqVersion] at h
    split at h
    · cases h
    · rename_i inside
      split at h
      · cases h
      · split at h
        · cases h; exact ⟨by simp, scanned _ inside⟩
        · split at h
          · cases h; exact ⟨by simp, scanned _ inside⟩
          · cases h
  | reqVersionLf =>
    simp only [parseStep, reqVersionLf] at h
    split at h
    · cases h
    · split at h
      · cases h
      · cases h; exact ⟨by simp, by omega, by omega⟩
  | reqHead =>
    simp only [parseStep, reqHead] at h
    split at h
    · cases h
    · rename_i inside
      split at h
      · split at h
        · cases h
        · split at h
          · cases h
          · cases h; exact ⟨by simp, scanned _ inside⟩
      · cases h; exact ⟨by simp, scanned _ inside⟩
  | reqHeadLf =>
    simp only [parseStep, reqHeadLf] at h
    split at h
    · cases h
    · split at h
      · cases h
      · split at h
        · cases h; exact ⟨by simp, by omega, by omega⟩
        · cases h

theorem parseStep_decreases {len : Nat} {state state' : ParseState} {mem mem' : Bytes}
    {req req' : Request} {p r p' r' : Nat}
    (h : parseStep len state mem req p r = .goto state' mem' req' p' r') :
    parseMeasure len state' r' < parseMeasure len state r := by
  by_cases started : state = .new
  · subst started
    cases h
    simp [parseMeasure]
  · obtain ⟨started', inside, further⟩ := parseStep_goto started h
    have measure (s : ParseState) (hs : s ≠ .new) (x : Nat) : parseMeasure len s x = len - x := by
      cases s <;> first | exact absurd rfl hs | rfl
    rw [measure _ started, measure _ started']
    omega

inductive ParseEnd where
  | readMore (state : ParseState) (mem : Bytes) (req : Request) (p r : Nat)
  | finish (mem : Bytes) (req : Request) (p : Nat)
  | fail (mem : Bytes) (req : Request) (status : HttpStatus)
  deriving DecidableEq, Repr

def parse (len : Nat) (state : ParseState) (mem : Bytes) (req : Request) (p r : Nat) : ParseEnd :=
  match _step : parseStep len state mem req p r with
  | .goto state mem req p r => parse len state mem req p r
  | .readMore state mem req p r => .readMore state mem req p r
  | .finish mem req p => .finish mem req p
  | .fail mem req status => .fail mem req status
termination_by parseMeasure len state r
decreasing_by exact parseStep_decreases _step

end Kitserv
