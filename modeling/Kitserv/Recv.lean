import Kitserv.Kernel
import Kitserv.Parse

namespace Kitserv

open Memory

def HeadInfo.ofRequest (mem : Bytes) (req : Request) : HeadInfo where
  method := req.method
  version := req.version
  path := req.path.map (cString mem)
  query := req.query.map (cString mem)
  cookies := req.freshCookies.map (cString mem)
  range := req.range.map (cString mem)
  modifiedSince := req.modifiedSince.map (cString mem)
  contentLen := req.contentLen
  mimetype := req.mimetype.map (cString mem)
  disposition := req.disposition.map (cString mem)

/-- `parse_past_end`; a NULL cursor is in front of every buffer. -/
def parsePastEnd (c : Client) : Option Nat → Bool
  | none => false
  | some r => c.reqHeadersLen ≤ r

inductive Round where
  | stop (o : Outcome)
  | again (c : Client) (k : Kernel) (p r : Option Nat)

/-- The switch and what follows it. -/
def recvParse (c : Client) (k : Kernel) (p r : Option Nat) : Round :=
  match parse c.reqHeadersLen c.ta.parseState c.reqHeaders c.ta.req (p.getD 0) (r.getD 0) with
  | .readMore state mem req p r =>
    .again { c with reqHeaders := mem, ta := { c.ta with parseState := state, req := req } } k
      (some p) (some r)
  | .finish mem req p =>
    let ta := { c.ta with
      req := req
      reqPayload := some p
      reqPayloadLen := c.reqHeadersLen - p
      state := .serve }
    .stop { rc := 0
            client := { c with reqHeaders := mem, ta := ta }
            kernel := k.emit (.request (HeadInfo.ofRequest mem req)) }
  | .fail mem req status =>
    let ta := { c.ta with req := req, resp := { c.ta.resp with status := status } }
    .stop { rc := -1, client := { c with reqHeaders := mem, ta := ta }, kernel := k }

/-- One round: the read with its cases as the comment in the source numbers them. -/
def recvRound (c : Client) (k : Kernel) (p r : Option Nat) : Round :=
  match k.read (httpBufsz - c.reqHeadersLen) with
  | (.wouldBlock, k) =>
    if parsePastEnd c r then
      .stop { rc := 0
              client := { c with ta := { c.ta with reqParseBlk := p, reqParseIter := r } }
              kernel := k }
    else recvParse c k p r
  | (.failed _, k) => .stop { rc := -1, client := c.setStatus .xHangup, kernel := k }
  | (.data [], k) =>
    if httpBufsz ≤ c.reqHeadersLen then
      if parsePastEnd c r then
        .stop { rc := -1
                client := c.setStatus .http431RequestHeaderFieldsTooLarge
                kernel := k }
      else recvParse c k p r
    else .stop { rc := -1, client := c.setStatus .xHangup, kernel := k }
  | (.data (b :: bs), k) =>
    let c := { c with
      reqHeaders := overwrite c.reqHeaders c.reqHeadersLen (b :: bs)
      reqHeadersLen := c.reqHeadersLen + (b :: bs).length }
    recvParse c k p r

def recvMeasure (c : Client) (r : Option Nat) : Nat :=
  2 * (httpBufsz - c.reqHeadersLen) + if parsePastEnd c r then 0 else 1

theorem parse_readMore {len : Nat} {state state' : ParseState} {mem mem' : Bytes}
    {req req' : Request} {p r p' r' : Nat}
    (h : parse len state mem req p r = .readMore state' mem' req' p' r') : len ≤ r' := by
  fun_induction parse len state mem req p r with
  | case1 _ _ _ _ _ _ _ _ _ _ _ ih => exact ih h
  | case2 state mem req p r _ _ _ _ _ step =>
    cases h
    cases state with
    | new => cases step
    | reqMethod =>
      simp only [parseStep, reqMethod] at step
      split at step
      · cases step; assumption
      · split at step <;> cases step
    | reqPath =>
      simp only [parseStep, reqPath] at step
      split at step
      · cases step; assumption
      · split at step
        · cases step
        · split at step <;> cases step
    | reqVersion =>
      simp only [parseStep, reqVersion] at step
      split at step
      · cases step; assumption
      · split at step
        · cases step
        · split at step
          · cases step
          · split at step <;> cases step
    | reqVersionLf =>
      simp only [parseStep, reqVersionLf] at step
      split at step
      · cases step; assumption
      · split at step <;> cases step
    | reqHead =>
      simp only [parseStep, reqHead] at step
      split at step
      · cases step; assumption
      · split at step
        · split at step
          · cases step
          · split at step <;> cases step
        · cases step
    | reqHeadLf =>
      simp only [parseStep, reqHeadLf] at step
      split at step
      · cases step; assumption
      · split at step
        · cases step
        · split at step <;> cases step
  | case3 => cases h
  | case4 => cases h

theorem recvParse_again {c c' : Client} {k k' : Kernel} {p r p' r' : Option Nat}
    (h : recvParse c k p r = .again c' k' p' r') :
    c'.reqHeadersLen = c.reqHeadersLen ∧ parsePastEnd c' r' = true ∧ k' = k := by
  unfold recvParse at h
  split at h
  · rename_i parsed
    cases h
    exact ⟨rfl, by simpa [parsePastEnd] using parse_readMore parsed, rfl⟩
  · cases h
  · cases h

theorem receive_length {count : Nat} {input rest : List Arrival} {bs : Bytes}
    (h : Kernel.receive count input = (.data bs, rest)) : bs.length ≤ count := by
  unfold Kernel.receive at h
  split at h
  · cases h
  · cases h
  · cases h; exact Nat.zero_le _
  · cases h
  · split at h
    · rename_i whole
      cases h
      exact List.drop_eq_nil_iff.mp whole
    · cases h
      simp only [List.length_take]
      omega

theorem read_length {k k' : Kernel} {count : Nat} {bs : Bytes}
    (h : k.read count = (.data bs, k')) : bs.length ≤ count := by
  unfold Kernel.read at h
  split at h
  · cases h; exact Nat.zero_le _
  · cases received : Kernel.receive count k.input with
    | mk r input =>
      rw [received] at h
      cases h
      exact receive_length received

theorem recvRound_decreases {c c' : Client} {k k' : Kernel} {p r p' r' : Option Nat}
    (h : recvRound c k p r = .again c' k' p' r') : recvMeasure c' r' < recvMeasure c r := by
  unfold recvRound at h
  split at h
  · split at h
    · cases h
    · rename_i ahead
      obtain ⟨len, past, -⟩ := recvParse_again h
      simp [recvMeasure, len, past, ahead]
  · cases h
  · split at h
    · split at h
      · cases h
      · rename_i ahead
        obtain ⟨len, past, -⟩ := recvParse_again h
        simp [recvMeasure, len, past, ahead]
    · cases h
  · rename_i b bs k₁ got
    obtain ⟨len, past, -⟩ := recvParse_again h
    have fits := read_length got
    simp only [List.length_cons] at fits len
    simp only [recvMeasure, len, past, if_true]
    omega

/-- `kitserv_http_recv_request` from `read_more` on, with its cursors p and r. -/
def recvLoop (c : Client) (k : Kernel) (p r : Option Nat) : Outcome :=
  match _round : recvRound c k p r with
  | .stop o => o
  | .again c k p r => recvLoop c k p r
termination_by recvMeasure c r
decreasing_by exact recvRound_decreases _round

def recvRequest (c : Client) (k : Kernel) : Outcome :=
  recvLoop c k c.ta.reqParseBlk c.ta.reqParseIter

end Kitserv
