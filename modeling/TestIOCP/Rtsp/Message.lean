import TestIOCP.Rtsp.Utils

/-! The types of RtspServer.h. Only the enumerators that the server assigns to a
field are listed. -/
namespace TestIOCP.Rtsp
open CString

def LINEBUFSIZE : Nat := 1024
def SESSIONID_LENGTH : Nat := 32
def RTSP_MAX_TRANSPORTS : Nat := 8

inductive RTSPMethod where
  | DESCRIBE
  | ANNOUNCE
  | OPTIONS
  | SETUP
  | PLAY
  | PAUSE
  | TEARDOWN
  | GET_PARAMETER
  | SET_PARAMETER
  | REDIRECT
  | RECORD
  | UNKNOWN
  deriving DecidableEq, Repr

inductive RTSPLowerTransport where
  | UDP
  | TCP
  | UDP_MULTICAST
  deriving DecidableEq, Repr

inductive RTSPTransport where
  | RTP
  | RDT
  | RAW
  deriving DecidableEq, Repr

inductive RTSPClientState where
  | IDLE
  | STREAMING
  | PAUSED
  | SEEKING
  deriving DecidableEq, Repr

structure RTSPTransportField where
  interleaved_min : Int
  interleaved_max : Int
  port_min : Int
  port_max : Int
  client_port_min : Int
  client_port_max : Int
  server_port_min : Int
  server_port_max : Int
  ttl : Int
  mode_record : Bool
  destination : Buffer 128
  source : Buffer 66
  transport : RTSPTransport
  lower_transport : RTSPLowerTransport
  deriving DecidableEq

structure RTSPMessageHeader where
  content_length : Int
  status_code : Int
  nb_transports : Nat
  range_start : Int
  range_end : Int
  transports : List RTSPTransportField
  seq : Int
  session_id : Buffer 512
  location : Buffer 4096
  real_challenge : Buffer 64
  server : Buffer 64
  timeout : Int
  notice : Int
  reason : Buffer 256
  content_type : Buffer 64
  deriving DecidableEq

/-- What memset leaves. -/
def RTSPTransportField.zero : RTSPTransportField :=
  ⟨0, 0, 0, 0, 0, 0, 0, 0, 0, false, .zero _, .zero _, .RTP, .UDP⟩

def RTSPMessageHeader.zero : RTSPMessageHeader :=
  ⟨0, 0, 0, 0, 0, List.replicate RTSP_MAX_TRANSPORTS .zero, 0, .zero _, .zero _,
    .zero _, .zero _, 0,
    0, .zero _, .zero _⟩

/-- status_messages, up to its end mark. -/
def status_messages : List (Nat × List Byte) :=
  [(200, bytes "OK"), (405, bytes "Method Not Allowed"), (453, bytes "Not Enough Bandwidth"),
    (454, bytes "Session Not Found"), (455, bytes "Method Not Valid in This State"),
    (459, bytes "Aggregate operation not allowed"),
    (460, bytes "Only aggregate operation allowed"), (461, bytes "Unsupported transport"),
    (500, bytes "Internal Server Error"), (503, bytes "Service Unavailable"),
    (505, bytes "RTSP Version not supported")]

def RTSP_STATUS_OK : Nat := 200

/-- One rtsp_send_reply call, with the message that it passes to Write. -/
structure Reply where
  code : Nat
  extracontent : List Byte
  seq : BitVec 16
  message : List Byte
  deriving DecidableEq, Repr

end TestIOCP.Rtsp
