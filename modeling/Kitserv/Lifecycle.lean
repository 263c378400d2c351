import Kitserv.Kernel

namespace Kitserv

open Memory

/-- The blocks that malloc gave to a client, with whatever is in them. -/
structure Blocks where
  reqHeaders : Bytes
  respHeaders : Bytes
  respStart : Bytes
  respBody : Bytes
  reqHeaders_len : reqHeaders.length = httpBufsz
  respHeaders_len : respHeaders.length = httpBufsz
  respStart_len : respStart.length = httpBufszSmall
  respBody_len : respBody.length = httpBufsz

def Blocks.zeroed : Blocks where
  reqHeaders := List.replicate httpBufsz 0
  respHeaders := List.replicate httpBufsz 0
  respStart := List.replicate httpBufszSmall 0
  respBody := List.replicate httpBufsz 0
  reqHeaders_len := List.length_replicate
  respHeaders_len := List.length_replicate
  respStart_len := List.length_replicate
  respBody_len := List.length_replicate

/-- `kitserv_http_create_client_struct`, when no malloc fails. The reset at its end finds a
body buffer of the size it asks for, so it makes no realloc. -/
def createClientStruct (blocks : Blocks) : Client where
  reqHeaders := blocks.reqHeaders
  respHeaders := blocks.respHeaders
  respStart := blocks.respStart
  respBody := Buffer.init blocks.respBody

def cleanupClient (c : Client) (out : ReallocOutcome) : Client :=
  { c with ta := {}, respBody := c.respBody.reset httpBufsz out }

/-- `kitserv_http_finalize_transaction`, or the failure of its assertion. What is left of the
bytes behind the head moves to the front of the buffer as the start of the next head. -/
def finalizeTransaction (c : Client) (k : Kernel) : Option (Client × Kernel) :=
  let remaining := c.ta.reqPayloadLen - c.ta.reqPayloadPos
  if 0 ≤ remaining ∧ remaining ≤ httpBufsz then
    let start := c.ta.reqPayload.getD 0 + c.ta.reqPayloadPos.toNat
    let left := slice c.reqHeaders start (start + remaining.toNat)
    let c := { c with
      reqHeaders := overwrite c.reqHeaders 0 left
      reqHeadersLen := remaining.toNat }
    some (cleanupClient c k.realloc.1, k.realloc.2.emit .finalized)
  else none

def resetClient (c : Client) (k : Kernel) : Client × Kernel :=
  (cleanupClient { c with reqHeadersLen := 0 } k.realloc.1, k.realloc.2.emit .reset)

end Kitserv
