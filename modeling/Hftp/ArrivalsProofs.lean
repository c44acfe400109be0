import Hftp.ReadingProofs

/-! # What the arrivals decide

    What a response does to a slot is decided before the call: by the response and the
    context that lie in the slot, by the buffer, and by what the reads bring.  Here that
    is written down without the loop of `http_internal_response` and its locals: the
    reads of a head, one after the other, and then those of a body, by its coding.

    A head may be missing, and then the slot keeps the code it had, or has the code of a
    status line.  A body without chunks breaks off when more bytes of it come than were
    announced; a chunked one when a read fails while a chunk is awaited. -/

namespace Arrivals

open CBytes HttpCore HttpHeader HttpChunked HttpResp Reading EndOfResponse

/-! ## The head -/

/-- What the head parser works on. -/
structure Parse where
  buffer : Bytes
  ctx : HttpResponseContext
  resp : HttpResponse

/-- The slot and the buffer before the first read. -/
def Parse.start (conn : HttpConnection) (buffer : Bytes) : Parse :=
  { buffer := buffer, ctx := { conn.ctx with state := .hrFirstLine }, resp := conn.resp }

/-- How much the next read may bring. -/
def Parse.room (p : Parse) : Nat := p.buffer.length - p.ctx.remainDataLen

/-- The parser with one more read. -/
def Parse.feed (p : Parse) (d : Bytes) : Except Abort Parse :=
  match httpParseResponseHeaderPerBuffer (store p.buffer p.ctx.remainDataLen d) d.length p.ctx
      p.resp with
  | .error e => .error e
  | .ok hp => .ok { buffer := hp.buffer, ctx := hp.ctx, resp := hp.resp }

/-- A read that brings nothing: the socket has come to its end, or it fails. -/
def Dry (sock : Sock) (n : Nat) : Prop := (sock.read n).1 = none ∨ (sock.read n).1 = some []

/-- How the reads of a head end: before its empty line, with a read that has it, or with
    one on which the parser crashes. -/
inductive HeadEnd where
  | missing (p : Parse)
  | complete (p : Parse) (readLen : Nat) (sock : Sock)
  | crashed (e : Abort) (p : Parse)

/-- The reads of a head. -/
inductive Head : Parse → Sock → HeadEnd → Prop where
  | missing {p : Parse} {sock : Sock} (hdry : Dry sock p.room) : Head p sock (.missing p)
  | crashed {p : Parse} {sock sock' : Sock} {d : Bytes} {e : Abort}
      (hread : sock.read p.room = (some d, sock')) (hd : d ≠ []) (hfeed : p.feed d = .error e) :
      Head p sock (.crashed e p)
  | complete {p q : Parse} {sock sock' : Sock} {d : Bytes}
      (hread : sock.read p.room = (some d, sock')) (hd : d ≠ []) (hfeed : p.feed d = .ok q)
      (hbody : q.ctx.state = .hrBody) : Head p sock (.complete q d.length sock')
  | more {p q : Parse} {sock sock' : Sock} {d : Bytes} {h : HeadEnd}
      (hread : sock.read p.room = (some d, sock')) (hd : d ≠ []) (hfeed : p.feed d = .ok q)
      (hbody : q.ctx.state ≠ .hrBody) (hrest : Head q sock' h) : Head p sock h

/-! ## The body -/

/-- How the reads of a body end: with the body or the connection, before their time, or
    with one on which the decoder crashes. -/
inductive Outcome where
  | done
  | gaveUp
  | crashed (e : Abort)
  deriving DecidableEq, Repr

def Outcome.code : Outcome → Except Abort Int
  | .done => .ok 0
  | .gaveUp => .ok 1
  | .crashed e => .error e

/-- The pieces of a body, the context behind the last of them, and the end. -/
structure Body where
  pieces : List Piece
  ctx : HttpResponseContext
  outcome : Outcome

/-- A body without chunks, of which `got` bytes are there: it ends with its length, if
    one was announced, and breaks off if a read passes that. -/
inductive Counted (capacity : Nat) (length : Int) (ctx : HttpResponseContext) :
    Int → Sock → Body → Prop where
  | met {got : Int} {sock : Sock} (hlen : 0 < length) (hmet : got = length) :
      Counted capacity length ctx got sock
        { pieces := [], ctx := { ctx with state := .hrEnd }, outcome := .done }
  | passed {got : Int} {sock : Sock} (hlen : 0 < length) (hover : length < got) :
      Counted capacity length ctx got sock { pieces := [], ctx := ctx, outcome := .gaveUp }
  | dry {got : Int} {sock : Sock} (hmore : 0 < length → got < length)
      (hdry : Dry sock capacity) :
      Counted capacity length ctx got sock { pieces := [], ctx := ctx, outcome := .done }
  | more {got : Int} {sock sock' : Sock} {d : Bytes} {b : Body}
      (hmore : 0 < length → got < length) (hread : sock.read capacity = (some d, sock'))
      (hd : d ≠ []) (hrest : Counted capacity length ctx (got + d.length) sock' b) :
      Counted capacity length ctx got sock
        { b with pieces := { bytes := d, len := d.length } :: b.pieces }

/-- What the chunked decoder is called with. -/
structure Window where
  buffer : Bytes
  readLen : Nat
  ctx : HttpResponseContext
  bodyLen : Int

/-- The decoder on it; `registered` is `conn->clb.resp_body_func != NULL`. -/
def Window.decode (registered : Bool) (w : Window) : ChunkRun :=
  httpChunkedResponseBody registered w.buffer w.readLen w.ctx w.bodyLen

/-- How much the read behind it may bring. -/
def Window.room (w : Window) (run : ChunkRun) : Nat := w.buffer.length - run.s.ctx.remainDataLen

/-- The window with that read. -/
def Window.next (w : Window) (run : ChunkRun) (d : Bytes) : Window :=
  { buffer := store w.buffer run.s.ctx.remainDataLen d, readLen := d.length, ctx := run.s.ctx,
    bodyLen := run.s.bodyLen }

/-- A chunked body, from a call of the decoder on: it ends when the last size is 0 or
    when nothing comes and nothing is awaited, and breaks off if a read fails before. -/
inductive Chunked (registered : Bool) : Window → Sock → Body → Prop where
  | crashed {w : Window} {sock : Sock} {e : Abort}
      (hstop : (w.decode registered).stop = .error e) :
      Chunked registered w sock
        { pieces := (w.decode registered).s.pieces, ctx := (w.decode registered).s.ctx,
          outcome := .crashed e }
  | last {w : Window} {sock : Sock} {continued : Bool}
      (hstop : (w.decode registered).stop = .ok continued)
      (hsize : (w.decode registered).s.ctx.chunkSize = 0) :
      Chunked registered w sock
        { pieces := (w.decode registered).s.pieces,
          ctx := { (w.decode registered).s.ctx with state := .hrEnd }, outcome := .done }
  | broken {w : Window} {sock : Sock} (hstop : (w.decode registered).stop = .ok true)
      (hsize : (w.decode registered).s.ctx.chunkSize ≠ 0)
      (hfails : (sock.read (w.room (w.decode registered))).1 = none) :
      Chunked registered w sock
        { pieces := (w.decode registered).s.pieces, ctx := (w.decode registered).s.ctx,
          outcome := .gaveUp }
  | dry {w : Window} {sock : Sock} (hstop : (w.decode registered).stop = .ok false)
      (hsize : (w.decode registered).s.ctx.chunkSize ≠ 0)
      (hdry : Dry sock (w.room (w.decode registered))) :
      Chunked registered w sock
        { pieces := (w.decode registered).s.pieces, ctx := (w.decode registered).s.ctx,
          outcome := .done }
  | more {w : Window} {sock sock' : Sock} {continued : Bool} {d : Bytes} {b : Body}
      (hstop : (w.decode registered).stop = .ok continued)
      (hsize : (w.decode registered).s.ctx.chunkSize ≠ 0)
      (hread : sock.read (w.room (w.decode registered)) = (some d, sock'))
      (hd : d = [] → continued = true)
      (hrest : Chunked registered (w.next (w.decode registered) d) sock' b) :
      Chunked registered w sock { b with pieces := (w.decode registered).s.pieces ++ b.pieces }

/-- The body bytes that came with the end of the head. -/
def Parse.surplus (p : Parse) : List Piece :=
  if p.ctx.remainDataLen = 0 then []
  else
    [{ bytes := (p.buffer.drop p.ctx.remainDataIndex).take p.ctx.remainDataLen,
       len := p.ctx.remainDataLen }]

/-- The context once they are handed on. -/
def Parse.emptied (p : Parse) : HttpResponseContext :=
  if p.ctx.remainDataLen = 0 then p.ctx
  else { p.ctx with remainDataIndex := 0, remainDataLen := 0 }

/-- What of it a callback hears, if there is one. -/
def Body.heard (registered : Bool) (b : Body) : Body :=
  { b with pieces := if registered then b.pieces else [] }

/-- **THE BODY BEHIND A HEAD** that was complete with a read of `readLen` bytes. -/
def BodyEnds (registered : Bool) (p : Parse) (readLen : Nat) (sock : Sock) (b : Body) : Prop :=
  match p.resp.transferEncoding with
  | .teChunked =>
      Chunked registered
        { buffer := p.buffer, readLen := readLen,
          ctx := { p.ctx with chunkTerminateState := .sizeByte }, bodyLen := 0 } sock b
  | .teNone =>
      ∃ rest, Counted p.buffer.length p.resp.contentLength p.emptied p.ctx.remainDataLen sock rest ∧
        b = Body.heard registered { rest with pieces := p.surplus ++ rest.pieces }
  | .teNotSupported => b = { pieces := [], ctx := p.ctx, outcome := .done }

/-! ## The response -/

/-- What the arrivals leave in the slot, what they tell the callbacks, and how they
    end. -/
structure Told where
  resp : HttpResponse
  ctx : HttpResponseContext
  calls : List RespCall
  outcome : Outcome

/-- **WHAT THE ARRIVALS TELL** a slot with these callbacks. -/
inductive Tells (onHeader onBody : Bool) (start : Parse) (sock : Sock) : Told → Prop where
  | headless {p : Parse} (hhead : Head start sock (.missing p)) :
      Tells onHeader onBody start sock
        { resp := p.resp, ctx := p.ctx, calls := [], outcome := .done }
  | crashed {p : Parse} {e : Abort} (hhead : Head start sock (.crashed e p)) :
      Tells onHeader onBody start sock
        { resp := p.resp, ctx := p.ctx, calls := [], outcome := .crashed e }
  | headed {p : Parse} {readLen : Nat} {sock' : Sock} {b : Body}
      (hhead : Head start sock (.complete p readLen sock'))
      (hbody : BodyEnds onBody p readLen sock' b) :
      Tells onHeader onBody start sock
        { resp := p.resp, ctx := b.ctx,
          calls := (if onHeader then [.header p.resp] else []) ++ b.pieces.map .body,
          outcome := b.outcome }

/-! ## There is one way to read them -/

theorem Dry.nothing {sock sock' : Sock} {n : Nat} {d : Bytes} (h : Dry sock n)
    (hread : sock.read n = (some d, sock')) : d = [] := by
  rw [Dry, hread] at h
  rcases h with hnone | hempty
  · cases hnone
  · exact Option.some.inj hempty

/-- A read brings one thing. -/
theorem read_unique {sock s s' : Sock} {n : Nat} {d d' : Bytes}
    (h : sock.read n = (some d, s)) (h' : sock.read n = (some d', s')) : d = d' ∧ s = s' := by
  obtain ⟨hd, hs⟩ := Prod.mk.inj (h.symm.trans h')
  exact ⟨Option.some.inj hd, hs⟩

theorem Head.unique {p : Parse} {sock : Sock} {h h' : HeadEnd} (hh : Head p sock h)
    (hh' : Head p sock h') : h = h' := by
  induction hh generalizing h' with
  | missing hdry =>
      cases hh' with
      | missing _ => rfl
      | crashed hread hd _ | complete hread hd _ _ | more hread hd _ _ _ =>
          exact absurd (hdry.nothing hread) hd
  | crashed hread hd hfeed =>
      cases hh' with
      | missing hdry => exact absurd (hdry.nothing hread) hd
      | crashed hread' _ hfeed' =>
          obtain ⟨rfl, -⟩ := read_unique hread hread'
          obtain rfl := Except.error.inj (hfeed.symm.trans hfeed')
          rfl
      | complete hread' _ hfeed' _ | more hread' _ hfeed' _ _ =>
          obtain ⟨rfl, -⟩ := read_unique hread hread'
          cases hfeed.symm.trans hfeed'
  | complete hread hd hfeed hbody =>
      cases hh' with
      | missing hdry => exact absurd (hdry.nothing hread) hd
      | crashed hread' _ hfeed' =>
          obtain ⟨rfl, -⟩ := read_unique hread hread'
          cases hfeed.symm.trans hfeed'
      | complete hread' _ hfeed' _ =>
          obtain ⟨rfl, rfl⟩ := read_unique hread hread'
          obtain rfl := Except.ok.inj (hfeed.symm.trans hfeed')
          rfl
      | more hread' _ hfeed' hbody' _ =>
          obtain ⟨rfl, -⟩ := read_unique hread hread'
          obtain rfl := Except.ok.inj (hfeed.symm.trans hfeed')
          exact absurd hbody hbody'
  | more hread hd hfeed hbody hrest ih =>
      cases hh' with
      | missing hdry => exact absurd (hdry.nothing hread) hd
      | crashed hread' _ hfeed' =>
          obtain ⟨rfl, -⟩ := read_unique hread hread'
          cases hfeed.symm.trans hfeed'
      | complete hread' _ hfeed' hbody' =>
          obtain ⟨rfl, -⟩ := read_unique hread hread'
          obtain rfl := Except.ok.inj (hfeed.symm.trans hfeed')
          exact absurd hbody' hbody
      | more hread' _ hfeed' _ hrest' =>
          obtain ⟨rfl, rfl⟩ := read_unique hread hread'
          obtain rfl := Except.ok.inj (hfeed.symm.trans hfeed')
          exact ih hrest'

theorem Counted.unique {capacity : Nat} {length got : Int} {ctx : HttpResponseContext}
    {sock : Sock} {b b' : Body} (h : Counted capacity length ctx got sock b)
    (h' : Counted capacity length ctx got sock b') : b = b' := by
  induction h generalizing b' with
  | met hlen hmet =>
      cases h' with
      | met _ _ => rfl
      | passed _ hover => omega
      | dry hmore _ | more hmore _ _ _ => have := hmore hlen; omega
  | passed hlen hover =>
      cases h' with
      | met _ hmet => omega
      | passed _ _ => rfl
      | dry hmore _ | more hmore _ _ _ => have := hmore hlen; omega
  | dry hmore hdry =>
      cases h' with
      | met hlen hmet => have := hmore hlen; omega
      | passed hlen hover => have := hmore hlen; omega
      | dry _ _ => rfl
      | more _ hread hd _ => exact absurd (hdry.nothing hread) hd
  | more hmore hread hd hrest ih =>
      cases h' with
      | met hlen hmet => have := hmore hlen; omega
      | passed hlen hover => have := hmore hlen; omega
      | dry _ hdry => exact absurd (hdry.nothing hread) hd
      | more _ hread' _ hrest' =>
          obtain ⟨rfl, rfl⟩ := read_unique hread hread'
          rw [ih hrest']

theorem Chunked.unique {registered : Bool} {w : Window} {sock : Sock} {b b' : Body}
    (h : Chunked registered w sock b) (h' : Chunked registered w sock b') : b = b' := by
  induction h generalizing b' with
  | crashed hstop =>
      cases h' with
      | crashed hstop' => rw [Except.error.inj (hstop.symm.trans hstop')]
      | last hstop' _ | broken hstop' _ _ | dry hstop' _ _ | more hstop' _ _ _ _ =>
          cases hstop.symm.trans hstop'
  | last hstop hsize =>
      cases h' with
      | crashed hstop' => cases hstop.symm.trans hstop'
      | last _ _ => rfl
      | broken _ hsize' _ | dry _ hsize' _ | more _ hsize' _ _ _ => exact absurd hsize hsize'
  | broken hstop hsize hfails =>
      cases h' with
      | crashed hstop' | dry hstop' _ _ => cases hstop.symm.trans hstop'
      | last _ hsize' => exact absurd hsize' hsize
      | broken _ _ _ => rfl
      | more _ _ hread _ _ =>
          rw [hread] at hfails
          cases hfails
  | dry hstop hsize hdry =>
      cases h' with
      | crashed hstop' | broken hstop' _ _ => cases hstop.symm.trans hstop'
      | last _ hsize' => exact absurd hsize' hsize
      | dry _ _ _ => rfl
      | more hstop' _ hread hd _ =>
          rw [hd (hdry.nothing hread)] at hstop'
          cases hstop.symm.trans hstop'
  | more hstop hsize hread hd hrest ih =>
      cases h' with
      | crashed hstop' => cases hstop.symm.trans hstop'
      | last _ hsize' => exact absurd hsize' hsize
      | broken _ _ hfails =>
          rw [hread] at hfails
          cases hfails
      | dry hstop' _ hdry =>
          rw [hd (hdry.nothing hread)] at hstop
          cases hstop.symm.trans hstop'
      | more _ _ hread' _ hrest' =>
          obtain ⟨rfl, rfl⟩ := read_unique hread hread'
          rw [ih hrest']

theorem BodyEnds.unique {registered : Bool} {p : Parse} {readLen : Nat} {sock : Sock} {b b' : Body}
    (h : BodyEnds registered p readLen sock b) (h' : BodyEnds registered p readLen sock b') :
    b = b' := by
  rw [BodyEnds] at h h'
  cases hcoding : p.resp.transferEncoding with
  | teChunked =>
      rw [hcoding] at h h'
      exact h.unique h'
  | teNone =>
      rw [hcoding] at h h'
      obtain ⟨rest, hrest, rfl⟩ := h
      obtain ⟨rest', hrest', rfl⟩ := h'
      rw [hrest.unique hrest']
  | teNotSupported =>
      rw [hcoding] at h h'
      exact h.trans h'.symm

/-- **THE ARRIVALS TELL ONE THING.** -/
theorem Tells.unique {onHeader onBody : Bool} {start : Parse} {sock : Sock} {t t' : Told}
    (h : Tells onHeader onBody start sock t) (h' : Tells onHeader onBody start sock t') :
    t = t' := by
  cases h with
  | headless hhead =>
      cases h' with
      | headless hhead' =>
          obtain rfl := HeadEnd.missing.inj (hhead.unique hhead')
          rfl
      | crashed hhead' | headed hhead' _ => cases hhead.unique hhead'
  | crashed hhead =>
      cases h' with
      | headless hhead' | headed hhead' _ => cases hhead.unique hhead'
      | crashed hhead' =>
          obtain ⟨rfl, rfl⟩ := HeadEnd.crashed.inj (hhead.unique hhead')
          rfl
  | headed hhead hbody =>
      cases h' with
      | headless hhead' | crashed hhead' => cases hhead.unique hhead'
      | headed hhead' hbody' =>
          obtain ⟨rfl, rfl, rfl⟩ := HeadEnd.complete.inj (hhead.unique hhead')
          rw [hbody.unique hbody']

/-! ## The loop reads them so -/

section Loop

variable {onHeader registered : Bool} {s : RespLocal}

/-- A run that went on with a body from the locals `s` on. -/
structure Shows (run : RespRun) (s : RespLocal) (b : Body) : Prop where
  stop : run.stop = b.outcome.code
  resp : run.s.resp = s.resp
  ctx : run.s.ctx = b.ctx
  calls : run.s.calls = s.calls ++ b.pieces.map .body

/-- What went before is told before. -/
theorem Shows.before {run : RespRun} {s t : RespLocal} {b : Body} {pieces : List Piece}
    (h : Shows run t b) (hresp : t.resp = s.resp)
    (hcalls : t.calls = s.calls ++ pieces.map .body) :
    Shows run s { b with pieces := pieces ++ b.pieces } := by
  refine ⟨h.stop, h.resp.trans hresp, h.ctx, ?_⟩
  rw [h.calls, hcalls, List.map_append, List.append_assoc]

/-- What a call of the decoder leaves of them. -/
def decoded (s : RespLocal) (run : ChunkRun) : RespLocal :=
  { s with ctx := run.s.ctx, bodyLen := run.s.bodyLen,
           calls := s.calls ++ run.s.pieces.map .body }

/-- A run that left what the arrivals tell. -/
structure Leaves (run : RespRun) (t : Told) : Prop where
  stop : run.stop = t.outcome.code
  resp : run.s.resp = t.resp
  ctx : run.s.ctx = t.ctx
  calls : run.s.calls = t.calls

/-- With a read more before it, a head ends as it does without. -/
theorem Tells.more {onHeader onBody : Bool} {p q : Parse} {sock sock' : Sock} {d : Bytes} {t : Told}
    (h : Tells onHeader onBody q sock' t) (hread : sock.read p.room = (some d, sock')) (hd : d ≠ [])
    (hfeed : p.feed d = .ok q) (hbody : q.ctx.state ≠ .hrBody) : Tells onHeader onBody p sock t := by
  cases h with
  | headless hhead => exact .headless (.more hread hd hfeed hbody hhead)
  | crashed hhead => exact .crashed (.more hread hd hfeed hbody hhead)
  | headed hhead hends => exact .headed (.more hread hd hfeed hbody hhead) hends

end Loop

section Call

variable {onBody : Bool} {sock : Sock}

end Call

end Arrivals
