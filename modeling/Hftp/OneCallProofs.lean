import Hftp.RequestFramingProofs

/-! # One call, or two

    `http_one_req_resp` makes the request and receives the response in one call;
    a worker does it in two, `http_request` and, when the socket is readable,
    `http_response`.  The code is there twice.  What it sends, tells its callbacks and
    does to files is the same, whatever happens; what differs is the end: the one
    call leaves the socket to its caller. -/

namespace OneCall

open CBytes HttpCore HttpResp HttpMethod HttpTransfer RequestFraming

/-- The connection with its socket closed. -/
def released (state : Int) (conn : HttpConnection) : HttpConnection :=
  { conn with state := state, sockfd := 0 }

/-- What the socket took in the one call. -/
def OneRun.accepted (one : OneRun) : Bytes := one.send.elim [] fun run => run.sent.accepted

/-- The two come to the same, except that the socket is closed behind the two calls. -/
structure Agrees (one : OneRun) (two : CommandRun) : Prop where
  stop : one.stop = two.stop
  world : one.world = two.world
  accepted : OneRun.accepted one = two.accepted
  calls : one.calls = two.calls
  done : two.stop = .ok 0 → two.conn = released 3 one.conn
  failed : ∀ code, two.stop = .ok code → code ≠ 0 → two.conn = released (-1) one.conn
  aborted : ∀ e, two.stop = .error e → two.conn = one.conn

section Both

variable {conn : HttpConnection} {w : MethodWorld}

/-- The first callback leaves the socket and the callbacks alone. -/
theorem before_keeps (clb : HttpCallback) :
    (callIf (methodCallbacks clb).beforeReq conn w).2.1.sockfd = conn.sockfd ∧
      (callIf (methodCallbacks clb).beforeReq conn w).2.1.clb = conn.clb := by
  rw [methodCallbacks]
  cases clb.beforeReq with
  | none => exact ⟨rfl, rfl⟩
  | some m =>
      show (methodBeforeReq conn w).2.1.sockfd = _ ∧ (methodBeforeReq conn w).2.1.clb = _
      rw [methodBeforeReq, beforeReq]
      cases conn.clb.beforeReq with
      | none => exact ⟨rfl, rfl⟩
      | some m => cases m <;> exact ⟨rfl, rfl⟩

/-- So does the last one of a request. -/
theorem after_keeps (clb : HttpCallback) :
    (callIf (methodCallbacks clb).afterReq conn w).2.1 = conn := by
  rw [methodCallbacks]
  cases clb.afterReq with
  | none => rfl
  | some m =>
      show (methodAfterReq conn w).2.1 = conn
      rw [methodAfterReq]
      split <;> rfl

/-- **ONE CALL AGREES WITH TWO**: on a connected socket and a buffer, whatever callbacks
    are registered and whatever the socket, the file and the callbacks do, the one
    call ends as the two calls do, with the same sent, told and written; the two
    leave its connection with the socket closed. -/
theorem one_agrees {capacity fuel : Nat} {results : Writes} {leftover : Bytes} {sock : Sock}
    (hsock : 2 < conn.sockfd) (hcap : 0 < capacity) :
    Agrees (httpOneReqResp conn capacity results fuel leftover sock w)
      (command conn capacity results fuel
        (store (List.replicate capacity 0) 0 (leftover.take capacity)) sock w) := by
  obtain ⟨buffer, hbuffer⟩ : ∃ buffer, buffer =
      store (List.replicate capacity 0) 0 (leftover.take capacity) := ⟨_, rfl⟩
  have hroom : buffer ≠ [] := by
    rw [← List.length_pos_iff, hbuffer, store_zero]
    simp
    omega
  have hkeeps := @before_keeps conn w conn.clb
  rw [httpOneReqResp, if_neg (Nat.pos_iff_ne_zero.mp hcap), command, httpRequest,
    if_neg (asserts_hold hsock hcap), ← hbuffer]
  dsimp only
  generalize callIf (methodCallbacks conn.clb).beforeReq conn w = before at hkeeps ⊢
  obtain ⟨code, conn', w'⟩ := before
  dsimp only at hkeeps ⊢
  by_cases hrefused : code ≠ 0
  · -- nothing is sent
    rw [if_pos hrefused, if_pos hrefused]
    refine ⟨rfl, rfl, rfl, rfl, ?_, fun _ _ _ => rfl, ?_⟩
    · rintro ⟨⟩
    · rintro e ⟨⟩
  · rw [if_neg hrefused, if_neg hrefused]
    generalize httpInternalRequest (methodCallbacks conn.clb) conn' capacity results fuel w' = run
    obtain ⟨stop, sent⟩ := run
    cases stop with
    | error e =>
        refine ⟨rfl, rfl, rfl, rfl, ?_, ?_, fun _ _ => rfl⟩
        · rintro ⟨⟩
        · rintro code ⟨⟩
    | ok code =>
        dsimp only
        by_cases hunsent : code ≠ 0
        · rw [if_pos hunsent, if_pos hunsent]
          refine ⟨rfl, rfl, rfl, rfl, ?_, fun _ _ _ => rfl, ?_⟩
          · rintro ⟨⟩
          · rintro e ⟨⟩
        · rw [if_neg hunsent, if_neg hunsent]
          have hafter := @after_keeps conn' sent.world conn.clb
          generalize callIf (methodCallbacks conn.clb).afterReq conn' sent.world = after at hafter ⊢
          obtain ⟨code, conn'', w''⟩ := after
          obtain rfl : conn'' = conn' := hafter
          dsimp only
          by_cases hlate : code ≠ 0
          · rw [if_pos hlate, if_pos hlate]
            refine ⟨rfl, rfl, rfl, rfl, ?_, fun _ _ _ => rfl, ?_⟩
            · rintro ⟨⟩
            · rintro e ⟨⟩
          · -- the response
            rw [if_neg hlate, if_neg hlate]
            have hopen : ¬ (conn''.sockfd ≤ 2 ∨ buffer = []) := by
              rw [hkeeps.1]
              rintro (hlow | hnone)
              · omega
              · exact hroom hnone
            dsimp only
            rw [if_neg (not_not.mpr rfl), httpResponse, if_neg hopen]
            dsimp only
            generalize receive { conn'' with state := 2 } buffer sock w'' = got
            generalize httpInternalResponse { conn'' with state := 2 } buffer sock = reading
            obtain ⟨stop, s⟩ := reading
            cases stop with
            | error e =>
                refine ⟨rfl, rfl, rfl, rfl, ?_, ?_, fun _ _ => rfl⟩
                · rintro ⟨⟩
                · rintro code ⟨⟩
            | ok code =>
                dsimp only
                by_cases hbroken : code ≠ 0
                · rw [if_pos hbroken, if_pos hbroken]
                  refine ⟨rfl, rfl, rfl, rfl, ?_, fun _ _ _ => rfl, ?_⟩
                  · rintro ⟨⟩
                  · rintro e ⟨⟩
                · rw [if_neg hbroken, if_neg hbroken]
                  refine ⟨rfl, rfl, rfl, rfl, fun _ => rfl, ?_, ?_⟩
                  · rintro code ⟨⟩ hne
                    exact absurd rfl hne
                  · rintro e ⟨⟩

end Both

/-- A server that closes after two bytes. -/
def twoBytes : Sock := { segs := [lit "HT"], ending := .eof, taken := 0 }

/-- A GET of which no response comes. -/
theorem one_agrees_get :
    Agrees
      (httpOneReqResp getConn 64 (fun _ => some 64) 2 [] twoBytes (worldWith noFile))
      (command getConn 64 (fun _ => some 64) 2
        (store (List.replicate 64 0) 0 (([] : Bytes).take 64)) twoBytes (worldWith noFile)) :=
  one_agrees (by decide) (by decide)

end OneCall
