import TestIOCP.Tcp.Listener

/-! The operations that the common parts of calls perform. -/
namespace TestIOCP.Tcp
open Program

section
variable {F : Type} {P : Op F → Prop}

theorem takeBuf_every (pop : P .bufPop) (new : P .bufNew) (allocated : P .bufAllocated) :
    (takeBuf : Call F (Option Buf)).Every P := by
  refine Every.bind (.perform pop) fun found => ?_
  cases found with
  | some b => trivial
  | none =>
    refine Every.bind (.perform new) fun made => ?_
    cases made with
    | none => trivial
    | some b => exact Every.bind (.perform allocated) fun _ => trivial

theorem takeReq_every {m_pObserver : Option Obj} (pop : P .reqPop) (new : P (.reqNew m_pObserver))
    (allocated : P .reqAllocated) : (takeReq m_pObserver : Call F (Option Req)).Every P := by
  refine Every.bind (.perform pop) fun found => ?_
  cases found with
  | some q => trivial
  | none =>
    refine Every.bind (.perform new) fun made => ?_
    cases made with
    | none => trivial
    | some q => exact Every.bind (.perform allocated) fun _ => trivial

end

section
variable {P : Op Listener → Prop}

theorem takeSocket_every (pop : P .socketPop) (new : P .wsaSocket)
    (allocated : P .socketAllocated) :
    Listener.takeSocket.Every P := by
  refine Every.bind (.perform pop) fun found => ?_
  cases found with
  | some sock => trivial
  | none =>
    refine Every.bind (.perform new) fun made => ?_
    cases made with
    | none => trivial
    | some sock => exact Every.bind (.perform allocated) fun _ => trivial

theorem takeWorker_every (pop : P .workerPop) (new : P .workerNew)
    (allocated : P .workerAllocated) :
    Listener.takeWorker.Every P := by
  refine Every.bind (.perform pop) fun found => ?_
  cases found with
  | some pworker => trivial
  | none =>
    refine Every.bind (.perform new) fun made => ?_
    cases made with
    | none => trivial
    | some pworker => exact Every.bind (.perform allocated) fun _ => trivial

end

end TestIOCP.Tcp
