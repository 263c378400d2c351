import Kitserv.Buffer

/-! The world a connection runs in: scripted answers of the system calls, the file system, the
time functions of the C library, and a trace of what the connection did. A script that has
run out answers would-block. errno is per thread and shared with other connections, so the
value it has on entry to static serving is part of the scripts; `outside` is what a read
behind the end of a buffer finds. -/
namespace Kitserv

/-- What the receiving side of the socket has next. A chunk is never empty. -/
inductive Arrival where
  | chunk (b : Byte) (bs : Bytes)
  | wouldBlock
  | eof
  | failed (code : Nat)
  deriving DecidableEq, Repr

inductive Transfer where
  | bytes (n : Nat)
  | wouldBlock
  | failed (code : Nat)
  deriving DecidableEq, Repr

/-- The result of read: `data []` is the return value 0. -/
inductive ReadResult where
  | data (bs : Bytes)
  | wouldBlock
  | failed (code : Nat)
  deriving DecidableEq, Repr

/-- The fields of `struct stat` that are looked at; `st_size` is an `off_t`. -/
structure Stat where
  isReg : Bool
  size : Nat
  size_lt : size < 2 ^ 63
  mtime : Int

structure Descriptor where
  val : Int
  pos : 0 < val

structure FileSystem where
  stat : Bytes → Except Errno Stat
  openRdonly : Bytes → Except Errno Descriptor

def FileSystem.empty : FileSystem where
  stat _ := .error (.other 2)
  openRdonly _ := .error (.other 2)

/-- The date format "%a, %d %b %Y %T GMT": strptime followed by timegm, and gmtime_r followed
by strftime (the text before the limit of its buffer). -/
structure TimeLib where
  strptime : Bytes → Option Int
  strftime : Int → Option Bytes

structure HeadInfo where
  method : HttpMethod
  version : HttpVersion
  path : Option Bytes
  query : Option Bytes
  cookies : Option Bytes
  range : Option Bytes
  modifiedSince : Option Bytes
  contentLen : Int
  mimetype : Option Bytes
  disposition : Option Bytes
  deriving DecidableEq, Repr

inductive Event where
  | socketRead (r : ReadResult)
  | socketWrite (r : Transfer)
  | socketSendfile (r : Transfer)
  | request (info : HeadInfo)
  | payload (bs : Bytes)
  | opened (fd : Int)
  | handed (fd : Int)
  | closed (fd : Int)
  | sent (bs : Bytes)
  | sentFile (fd pos : Int) (count : Nat)
  | routed
  | called (state : Ptr)
  | saved (state : Ptr)
  | returned (status : HttpStatus)
  | logged (status : HttpStatus) (path : Option Bytes)
  | finalized
  | reset
  deriving DecidableEq, Repr

structure Kernel where
  input : List Arrival := []
  writes : List Transfer := []
  sendfiles : List Transfer := []
  reallocs : List ReallocOutcome := []
  choices : List Int := []
  errnos : List Errno := []
  fs : Nat → FileSystem
  clock : Nat := 0
  outside : Nat → Byte := fun _ => 0
  trace : List Event := []

structure Server where
  defaultContext : RequestContext
  apiTree : Option ApiTree
  silentMode : Bool
  time : TimeLib

def rootServer : Server where
  defaultContext :=
    { root := [], rootFallback := none, fallback := none, useHttpAppendFallback := false }
  apiTree := none
  silentMode := true
  time :=
    { strptime := fun _ => some 0, strftime := fun _ => some (ascii "Thu, 01 Jan 1970 00:00:00 GMT") }

namespace Kernel

def emit (k : Kernel) (e : Event) : Kernel := { k with trace := k.trace ++ [e] }

/-- What read gives for `count` > 0 bytes of room, and what stays in the socket. An end of file
stays there for the next read. -/
def receive (count : Nat) : List Arrival → ReadResult × List Arrival
  | [] => (.wouldBlock, [])
  | .wouldBlock :: rest => (.wouldBlock, rest)
  | .eof :: rest => (.data [], .eof :: rest)
  | .failed code :: rest => (.failed code, rest)
  | .chunk b bs :: rest =>
    match (b :: bs).drop count with
    | [] => (.data (b :: bs), rest)
    | b' :: bs' => (.data ((b :: bs).take count), .chunk b' bs' :: rest)

def read (k : Kernel) (count : Nat) : ReadResult × Kernel :=
  if count = 0 then (.data [], k.emit (.socketRead (.data [])))
  else
    let (r, input) := receive count k.input
    (r, { k with input := input }.emit (.socketRead r))

def realloc (k : Kernel) : ReallocOutcome × Kernel :=
  (k.reallocs.headD (.moved fun _ => 0), { k with reallocs := k.reallocs.tail })

def choose (k : Kernel) : Int × Kernel :=
  (k.choices.headD 0, { k with choices := k.choices.tail })

/-- The value errno happens to have. -/
def staleErrno (k : Kernel) : Errno × Kernel :=
  (k.errnos.headD .zero, { k with errnos := k.errnos.tail })

def stat (k : Kernel) (path : Bytes) : Except Errno Stat × Kernel :=
  ((k.fs k.clock).stat path, { k with clock := k.clock + 1 })

def openRdonly (k : Kernel) (path : Bytes) : Except Errno Descriptor × Kernel :=
  let r := (k.fs k.clock).openRdonly path
  let k := { k with clock := k.clock + 1 }
  match r with
  | .ok fd => (r, k.emit (.opened fd.val))
  | .error _ => (r, k)

def close (k : Kernel) (fd : Int) : Kernel := k.emit (.closed fd)

def closeFdToZero (k : Kernel) (fd : Int) : Int × Kernel :=
  if fd > 0 then (0, k.close fd) else (fd, k)

end Kernel

structure Outcome where
  rc : Int
  client : Client
  kernel : Kernel

end Kitserv
