import TestIOCP.Rtsp.Message

/-! CRtspServer: from the chunks that its socket delivers to the replies that it
writes. The debug output is left out, and so is av_url_split, whose results go to
local arrays that nothing reads. -/
namespace TestIOCP.Rtsp
open CString

/-- The fields that complete lines change. -/
structure Session where
  m_nAnaPhase : Nat
  m_RtspState : RTSPClientState
  m_RtspReplyMessage : RTSPMessageHeader
  methodcode : RTSPMethod
  session_id : Buffer SESSIONID_LENGTH
  deriving DecidableEq

/-- A CRtspServer object: its session and the fields that read_line keeps. -/
structure RtspServer extends Session where
  m_pTempDataBuf : Option (List Byte)
  m_nTempDataSize : Nat
  m_LineBuf : Buffer LINEBUFSIZE
  deriving DecidableEq

/-- What the constructor guarantees; the other fields are not initialised. -/
structure Fresh (r : RtspServer) : Prop where
  tempDataBuf : r.m_pTempDataBuf = none
  tempDataSize : r.m_nTempDataSize = 0
  anaPhase : r.m_nAnaPhase = 0
  rtspState : r.m_RtspState = .IDLE

/-- A new server on memory that was zero. -/
def blank : RtspServer :=
  ⟨⟨0, .IDLE, .zero, .UNKNOWN, .zero _⟩, none, 0, .zero _⟩

theorem fresh_blank : Fresh blank := ⟨rfl, rfl, rfl, rfl⟩

def CR : Byte := ch '\r'
def LF : Byte := ch '\n'

/-- The local variables of the loop of read_line. -/
structure Scan where
  idx : Nat
  breturn : Bool
  bnext : Bool
  linelen : Nat
  plinebuf : Buffer LINEBUFSIZE

namespace Scan

/-- One byte goes into the line, which starts again when the buffer is full. -/
def put (s : Scan) (c : Byte) : Scan :=
  let linelen := if 1 + s.linelen > LINEBUFSIZE then 0 else s.linelen
  { s with plinebuf := s.plinebuf.set linelen c, linelen := linelen + 1 }

/-- The line ends: the byte of the line end that was put is replaced by NUL. -/
def finish (s : Scan) : Scan :=
  { s with plinebuf := s.plinebuf.set (s.linelen - 1) 0, linelen := s.linelen - 1 }

/-- One pass of the loop, and whether it has found a complete line. -/
def step (s : Scan) (c : Byte) : Bool × Scan :=
  let s := { s with idx := s.idx + 1 }
  if c = CR then
    if s.bnext then (true, s.finish)
    else (false, { s.put CR with breturn := true })
  else if c = LF then
    if s.breturn then (true, s.finish)
    else (false, { s.put CR with bnext := true })
  else if s.breturn then (false, { s.put c with breturn := false })
  else if s.bnext then (false, { s.put c with bnext := false })
  else (false, s.put c)

def run (s : Scan) : List Byte → Bool × Scan
  | [] => (false, s)
  | c :: rest =>
    match s.step c with
    | (true, s') => (true, s')
    | (false, s') => s'.run rest

end Scan

/-- The bytes that the do-while loop visits; pdatabuf[datasize] is NUL. -/
def unread (pdatabuf : List Byte) (readpos : Nat) : List Byte :=
  match pdatabuf.drop readpos with
  | [] => [0]
  | rest => rest

structure ReadLine where
  ret : Int
  server : RtspServer
  readpos : Nat
  linelen : Nat

def read_line (r : RtspServer) (pdatabuf : List Byte) (readpos : Nat) : ReadLine :=
  let r := if r.m_nTempDataSize ≥ LINEBUFSIZE then
      { r with m_pTempDataBuf := none, m_nTempDataSize := 0 }
    else r
  let scan : Scan := ⟨readpos, false, false, 0, r.m_LineBuf⟩
  let (r, scan) :=
    if r.m_nTempDataSize > 0 then
      let plinebuf := r.m_LineBuf.copy ((r.m_pTempDataBuf.getD []).take r.m_nTempDataSize)
      let r := { r with m_pTempDataBuf := none, m_nTempDataSize := 0 }
      -- The size is zero by now, so the byte tested is the one before m_LineBuf: the last
      -- byte of the pointer m_pTempDataBuf, which is null.
      let last := if r.m_nTempDataSize = 0 then 0 else plinebuf.get (r.m_nTempDataSize - 1)
      (r, { scan with
        plinebuf
        linelen := r.m_nTempDataSize
        breturn := last = CR
        bnext := last = LF })
    else (r, scan)
  match scan.run (unread pdatabuf readpos) with
  | (true, s) => ⟨0, { r with m_LineBuf := s.plinebuf }, s.idx, s.linelen⟩
  | (false, s) =>
    if s.linelen > 0 then
      ⟨-1, { r with
        m_LineBuf := s.plinebuf
        m_nTempDataSize := s.linelen
        m_pTempDataBuf := some (s.plinebuf.bytes.take s.linelen) }, readpos, 0⟩
    else ⟨-1, { r with m_LineBuf := s.plinebuf }, readpos, 0⟩

structure CommandLine where
  ret : Int
  uri : Buffer 500
  method : Buffer 10
  methodcode : RTSPMethod

/-- The methods that parse_command_line knows. -/
def methodNames : List (List Byte × RTSPMethod) :=
  [(bytes "ANNOUNCE", .ANNOUNCE), (bytes "DESCRIBE", .DESCRIBE), (bytes "OPTIONS", .OPTIONS),
    (bytes "RECORD", .RECORD), (bytes "PLAY", .PLAY), (bytes "SETUP", .SETUP),
    (bytes "PAUSE", .PAUSE), (bytes "GET_PARAMETER", .GET_PARAMETER),
    (bytes "SET_PARAMETER", .SET_PARAMETER), (bytes "REDIRECT", .REDIRECT),
    (bytes "TEARDOWN", .TEARDOWN)]

def methodOf (method : List Byte) : RTSPMethod :=
  (methodNames.lookup method).getD .UNKNOWN

/-- The check of the method against the state. -/
def allowed (state : RTSPClientState) (methodcode : RTSPMethod) : Bool :=
  match state with
  | .IDLE => methodcode = .ANNOUNCE || methodcode = .OPTIONS
  | .PAUSED => methodcode = .OPTIONS || methodcode = .RECORD || methodcode = .SETUP
  | .STREAMING => methodcode = .PAUSE || methodcode = .OPTIONS || methodcode = .TEARDOWN
  | .SEEKING => false

def parse_command_line (state : RTSPClientState) (line : List Byte) (uri : Buffer 500)
    (method : Buffer 10) (methodcode : RTSPMethod) : CommandLine :=
  match strchr line (ch ' ') with
  | none => ⟨-1, uri, method, methodcode⟩
  | some linept =>
    let length := line.length - linept.length
    if length > 10 - 1 then ⟨-2, uri, method, methodcode⟩
    else
      let method := method.store (line.take length)
      let linept := linept.tail
      let methodcode := methodOf method.string
      if !allowed state methodcode then ⟨-3, uri, method, methodcode⟩
      else
        match strchr linept (ch ' ') with
        | none => ⟨-3, uri, method, methodcode⟩
        | some searchlinept =>
          let length := linept.length - searchlinept.length
          if length > 500 - 1 then ⟨-4, uri, method, methodcode⟩
          else
            let uri := uri.store (linept.take length)
            match av_strstart searchlinept.tail (bytes "RTSP/1.0") with
            | none => ⟨-5, uri, method, methodcode⟩
            | some _ => ⟨0, uri, method, methodcode⟩

/-- What the system knows and the source leaves open: getaddrinfo for a numeric
address, and what a local array holds before its first write. -/
structure Env where
  getaddrinfo : List Byte → Option (List Byte)
  method : Buffer 10
  uri : Buffer 500
  /-- lower_transport in the call for the line that ends at a position. -/
  lower_transport : Nat → List Byte

def Env.blank : Env :=
  ⟨fun _ => none, .zero _, .zero _, fun _ => []⟩

/-- One parameter of a transport specification. -/
def transport_parameter (env : Env) (th : RTSPTransportField) (parameter p : List Byte) :
    RTSPTransportField × List Byte :=
  let range (set : Int → Int → RTSPTransportField) : RTSPTransportField × List Byte :=
    if deref p = ch '=' then
      let (min, max, rest) := rtsp_parse_range p.tail
      (set min max, rest)
    else (th, p)
  if parameter = bytes "port" then
    range fun min max => { th with port_min := min, port_max := max }
  else if parameter = bytes "client_port" then
    range fun min max => { th with client_port_min := min, client_port_max := max }
  else if parameter = bytes "server_port" then
    range fun min max => { th with server_port_min := min, server_port_max := max }
  else if parameter = bytes "interleaved" then
    range fun min max => { th with interleaved_min := min, interleaved_max := max }
  else if parameter = bytes "multicast" then
    if th.lower_transport = .UDP then
      ({ th with lower_transport := .UDP_MULTICAST }, p) else (th, p)
  else if parameter = bytes "ttl" then
    if deref p = ch '=' then
      let v := strtol p.tail
      ({ th with ttl := v.value }, v.rest)
    else (th, p)
  else if parameter = bytes "destination" then
    if deref p = ch '=' then
      let (buf, p) := get_word_sep 256 (bytes ";,") p.tail
      match env.getaddrinfo buf with
      | none => (th, p)
      | some addr => ({ th with destination := th.destination.copy addr }, p)
    else (th, p)
  else if parameter = bytes "source" then
    if deref p = ch '=' then
      let (buf, p) := get_word_sep 256 (bytes ";,") p.tail
      ({ th with source := av_strlcpy th.source buf }, p)
    else (th, p)
  else if parameter = bytes "mode" then
    if deref p = ch '=' then
      let (buf, p) := get_word_sep 256 (bytes ";, ") p.tail
      if buf = bytes "record" ∨ buf = bytes "receive" then ({ th with mode_record := true }, p)
      else (th, p)
    else (th, p)
  else (th, p)

/-- The parameter loop. Each pass moves the pointer on, so the length of the
string bounds their number. -/
def transport_parameters (env : Env) : Nat → RTSPTransportField → List Byte →
    RTSPTransportField × List Byte
  | 0, th, p => (th, p)
  | fuel + 1, th, p =>
    if p = [] ∨ deref p = ch ',' then (th, p)
    else
      let (parameter, p) := get_word_sep 16 (bytes "=;,") p
      let (th, p) := transport_parameter env th parameter p
      let p := p.dropWhile (fun c => c ≠ ch ';' && c ≠ ch ',')
      transport_parameters env fuel th (if deref p = ch ';' then p.tail else p)

/-- The protocol part: the new field, lower_transport and pointer. -/
def transport_protocol (th : RTSPTransportField) (lower_transport p : List Byte) :
    RTSPTransportField × List Byte × List Byte :=
  let (transport_protocol, p) := get_word_sep 16 (bytes "/") p
  let third (transport : RTSPTransport) : RTSPTransportField × List Byte × List Byte :=
    let (_, p) := get_word_sep 16 (bytes "/;,") p
    let (lower_transport, p) :=
      if deref p = ch '/' then get_word_sep 16 (bytes ";,") p else ([], p)
    ({ th with transport }, lower_transport, p)
  if av_strcaseeq transport_protocol (bytes "rtp") then third .RTP
  else if av_strcaseeq transport_protocol (bytes "x-pn-tng") ∨
      av_strcaseeq transport_protocol (bytes "x-real-rdt") then
    let (lower_transport, p) := get_word_sep 16 (bytes "/;,") p
    ({ th with transport := .RDT }, lower_transport, p)
  else if av_strcaseeq transport_protocol (bytes "raw") then third .RAW
  else (th, lower_transport, p)

/-- The outer loop, with as many passes as transports still fit. -/
def parse_transports (env : Env) : Nat → RTSPMessageHeader → List Byte → List Byte →
    RTSPMessageHeader
  | 0, msg, _, _ => msg
  | room + 1, msg, lower_transport, p =>
    let p := skip SPACE_CHARS p
    if p = [] then msg
    else
      let th := { msg.transports.getD msg.nb_transports .zero with mode_record := true }
      let (th, lower_transport, p) := transport_protocol th lower_transport p
      let th := { th with
        lower_transport := if av_strcaseeq lower_transport (bytes "TCP") then .TCP else .UDP }
      let p := if deref p = ch ';' then p.tail else p
      let (th, p) := transport_parameters env p.length th p
      let p := if deref p = ch ',' then p.tail else p
      parse_transports env room
        { msg with
          transports := msg.transports.set msg.nb_transports th
          nb_transports := msg.nb_transports + 1 }
        lower_transport p

def rtsp_parse_transport (env : Env) (msg : RTSPMessageHeader) (lower_transport p : List Byte) :
    RTSPMessageHeader :=
  parse_transports env RTSP_MAX_TRANSPORTS { msg with nb_transports := 0 } lower_transport p

/-- The header lines that change m_RtspReplyMessage; parse_nocommand_line takes
the first name that matches, and knows further names that change nothing. -/
def parse_nocommand_line (env : Env) (msg : RTSPMessageHeader) (lower_transport buf : List Byte) :
    RTSPMessageHeader :=
  match av_stristart buf (bytes "Session:") with
  | some p =>
    let (word, p) := get_word_sep 512 (bytes ";") p
    let msg := { msg with session_id := msg.session_id.store word }
    match av_stristart p (bytes ";timeout=") with
    | none => msg
    | some p => if (strtol p).value > 0 then { msg with timeout := (strtol p).value } else msg
  | none =>
  match av_stristart buf (bytes "Content-Length:") with
  | some p => { msg with content_length := (strtol p).value }
  | none =>
  match av_stristart buf (bytes "Transport:") with
  | some p => rtsp_parse_transport env msg lower_transport p
  | none =>
  match av_stristart buf (bytes "CSeq:") with
  | some p => { msg with seq := (strtol p).value }
  | none =>
  match av_stristart buf (bytes "Range:") with
  | some p =>
    let (range_start, range_end) := rtsp_parse_range_npt p (msg.range_start, msg.range_end)
    { msg with range_start, range_end }
  | none =>
  match av_stristart buf (bytes "RealChallenge1:") with
  | some p => { msg with real_challenge := av_strlcpy msg.real_challenge (skip SPACE_CHARS p) }
  | none =>
  match av_stristart buf (bytes "Server:") with
  | some p => { msg with server := av_strlcpy msg.server (skip SPACE_CHARS p) }
  | none =>
  match av_stristart buf (bytes "Notice:") <|> av_stristart buf (bytes "X-Notice:") with
  | some p => { msg with notice := (strtol p).value }
  | none =>
  match av_stristart buf (bytes "Location:") with
  | some p => { msg with location := av_strlcpy msg.location (skip SPACE_CHARS p) }
  | none =>
  match av_stristart buf (bytes "Content-Type:") with
  | some p => { msg with content_type := av_strlcpy msg.content_type (skip SPACE_CHARS p) }
  | none => msg

def rtsp_send_reply (code : Nat) (extracontent : List Byte) (seq : BitVec 16) : Option Reply :=
  (status_messages.lookup code).map fun text =>
    let message := bytes "RTSP/1.0 " ++ unsignedText code ++ ch ' ' :: text ++ bytes "\r\n"
    let message := av_strlcat message (bytes "CSeq: " ++ unsignedText seq.toNat ++
      bytes "\r\n") 4096
    let message := av_strlcat message (bytes "Server: Beijing Cti Streaming Server\r\n") 4096
    let message := av_strlcat message extracontent 4096
    ⟨code, extracontent, seq, av_strlcat message (bytes "\r\n") 4096⟩

/-- The answer to a request: the new state, and the replies sent. -/
abbrev Answer := Session × List Reply

def seq16 (r : Session) : BitVec 16 :=
  BitVec.ofInt 16 r.m_RtspReplyMessage.seq

def localport : Nat := 1000

/-- The line that answers the first transport. -/
def transport_line (host : List Byte) (th : RTSPTransportField) : List Byte :=
  if th.lower_transport = .TCP then
    bytes "Transport: RTP/AVP/TCP;unicast;mode=receive;interleaved=" ++
      signedText th.interleaved_min ++ bytes "-" ++ signedText th.interleaved_max ++ bytes "\r\n"
  else
    bytes "Transport: RTP/AVP/UDP;unicast;mode=receive;source=" ++ host ++ bytes ";client_port=" ++
      signedText th.client_port_min ++ bytes "-" ++ signedText th.client_port_max ++
      bytes ";server_port=" ++ unsignedText localport ++ bytes "-" ++
        unsignedText (localport + 1) ++
      bytes "\r\n"

def session_line (session_id : List Byte) : List Byte :=
  bytes "Session: " ++ session_id ++ bytes "\r\n"

def rtsp_setup_reply (r : Session) (host : List Byte) : Answer :=
  let msg := r.m_RtspReplyMessage
  if msg.nb_transports = 0 then (r, [])
  else if (msg.transports.take msg.nb_transports).any fun th =>
      !th.mode_record || (th.lower_transport ≠ .UDP && th.lower_transport ≠ .TCP) then (r, [])
  else
    let responseheaders := transport_line host (msg.transports.getD 0 .zero)
    -- One pass of the loop makes the id longer than eight bytes.
    let session_id := if r.session_id.string.length < 8 then
        r.session_id.store (av_strlcat r.session_id.string
          (unsignedText 123456789) SESSIONID_LENGTH)
      else r.session_id
    let responseheaders := av_strlcat responseheaders (session_line session_id.string) 1024
    ({ r with session_id, m_RtspState := .PAUSED },
      (rtsp_send_reply RTSP_STATUS_OK responseheaders (seq16 r)).toList)

def rtsp_play_reply (r : Session) : Answer :=
  let responseheaders := av_strlcat [] (session_line r.session_id.string) 1024
  ({ r with m_RtspState := .STREAMING },
    (rtsp_send_reply RTSP_STATUS_OK responseheaders (seq16 r)).toList)

def rtsp_teardown_reply (r : Session) : Answer :=
  let responseheaders := av_strlcat [] (session_line r.session_id.string) 1024
  ({ r with m_RtspState := .IDLE },
    (rtsp_send_reply RTSP_STATUS_OK responseheaders (seq16 r)).toList)

def public_line : List Byte :=
  bytes "Public: ANNOUNCE, PAUSE, SETUP, PLAY, TEARDOWN, RECORD\r\n"

/-- The switch on the method of a complete request. -/
def dispatch (r : Session) (uri : List Byte) : Answer :=
  match r.methodcode with
  | .OPTIONS => (r, (rtsp_send_reply RTSP_STATUS_OK public_line (seq16 r)).toList)
  | .SETUP => rtsp_setup_reply r uri
  | .PLAY => rtsp_play_reply r
  | .TEARDOWN => rtsp_teardown_reply r
  | .DESCRIBE | .ANNOUNCE | .PAUSE | .GET_PARAMETER | .SET_PARAMETER | .REDIRECT | .RECORD
  | .UNKNOWN => (r, [])

/-- The local arrays of ReadedDataProcess. -/
structure Locals where
  uri : Buffer 500
  method : Buffer 10

/-- What ReadedDataProcess does with a complete line of linesize bytes, whose
string is in m_LineBuf. -/
def process_line (env : Env) (r : Session) (v : Locals) (readpos linesize : Nat)
    (m_LineBuf : List Byte) : Session × Locals × List Reply :=
  if linesize > 0 then
    if r.m_nAnaPhase = 0 then
      let command := parse_command_line r.m_RtspState m_LineBuf v.uri v.method r.methodcode
      let r := { r with methodcode := command.methodcode }
      let v := ⟨command.uri, command.method⟩
      if command.ret = 0 then
        ({ r with m_RtspReplyMessage := .zero, m_nAnaPhase := 1 }, v, [])
      else (r, v, [])
    else
      let msg := parse_nocommand_line env r.m_RtspReplyMessage
        (env.lower_transport readpos) m_LineBuf
      ({ r with m_RtspReplyMessage := msg }, v, [])
  else if r.m_nAnaPhase = 1 then
    let (r, replies) := dispatch { r with m_nAnaPhase := 0 } v.uri.string
    (r, v, replies)
  else (r, v, [])

/-- The loop of ReadedDataProcess. A complete line takes at least two bytes, so
the size of the chunk bounds the number of passes. -/
def process_lines (env : Env) (pdatabuf : List Byte) : Nat → RtspServer → Locals → Nat →
    RtspServer × List Reply
  | 0, r, _, _ => (r, [])
  | fuel + 1, r, v, readpos =>
    let line := read_line r pdatabuf readpos
    let r := line.server
    if line.ret < 0 then (r, [])
    else
      let (session, v, replies) :=
        process_line env r.toSession v line.readpos line.linelen r.m_LineBuf.string
      let r := { r with toSession := session }
      if line.readpos = pdatabuf.length then (r, replies)
      else
        let (r, more) := process_lines env pdatabuf fuel r v line.readpos
        (r, replies ++ more)

def ReadedDataProcess (env : Env) (r : RtspServer) (pdatabuf : List Byte) :
    RtspServer × List Reply :=
  process_lines env pdatabuf (pdatabuf.length + 1) r ⟨env.uri, env.method⟩ 0

/-- The chunks of a connection, with what the system knows at each of them. -/
def receive : RtspServer → List (Env × List Byte) → RtspServer × List Reply
  | r, [] => (r, [])
  | r, (env, chunk) :: chunks =>
    let (r, replies) := ReadedDataProcess env r chunk
    let (r, more) := receive r chunks
    (r, replies ++ more)

end TestIOCP.Rtsp
