import Lra.Effect.Protocol
import Lra.Server.Main

/-!
# What a tick does, operation by operation

Apart from applying a pending command, a tick performs only the operations of
`TickOp`. A protocol state in which these change nothing is therefore kept by a
whole tick, as soon as applying a command keeps it.
-/

namespace Lra

open Effect

namespace Server

/-- The operations of a tick outside `applyCmd`. -/
inductive TickOp : MainOp → Prop where
  | load (f) : TickOp (.host (.load f))
  | expire : TickOp (.host (.store .controlLoopExpired false))
  | tickCount : TickOp (.host .tickCount)
  | setTickCount (n) : TickOp (.host (.setTickCount n))
  | acc (c) : TickOp (.host (.acc c))
  | send (m) : TickOp (.host (.send m))
  | runDrv : TickOp (.call .runDrv)
  | pauseDrv : TickOp (.call .pauseDrv)
  | getRt : TickOp (.call .getRt)
  | changeDrvCh : TickOp (.call (.changeDrvCh 'x'))

section Keeps

variable {τ : Type} {P : Protocol Main τ} {t : τ}

/-- One operation that changes nothing. -/
theorem op_keeps {o : MainOp} (stays : ∀ {o r}, TickOp o → P t o r t) (tickOp : TickOp o) :
    (.op o .ret : Program Main (Main.Res o)).Keeps P t :=
  Program.keeps_op (fun _ => stays tickOp) fun r => Program.keeps_ret r

theorem keepRunning_keeps (stays : ∀ {o r}, TickOp o → P t o r t) : keepRunning.Keeps P t := by
  refine (op_keeps stays (.load _)).bind fun onRun => ?_
  split
  · exact (op_keeps stays .runDrv).bind fun _ => op_keeps stays (.acc _)
  · exact Program.keeps_ret _

theorem sendRt_keeps (stays : ∀ {o r}, TickOp o → P t o r t) : sendRt.Keeps P t := by
  refine (op_keeps stays (.load _)).bind fun needSendRt => ?_
  split
  · refine (op_keeps stays .getRt).bind fun _ => (op_keeps stays (.acc _)).bind fun _ => ?_
    exact op_keeps stays (.send _)
  · exact Program.keeps_ret _

theorem work_keeps (stays : ∀ {o r}, TickOp o → P t o r t) (apply : applyCmd.Keeps P t) :
    work.Keeps P t := by
  refine (op_keeps stays (.load _)).bind fun onModify => ?_
  split
  · exact (keepRunning_keeps stays).bind fun _ => apply.bind fun _ => sendRt_keeps stays
  · exact op_keeps stays .pauseDrv

theorem alive_keeps (stays : ∀ {o r}, TickOp o → P t o r t) : alive.Keeps P t := by
  refine (op_keeps stays .tickCount).bind fun i => ?_
  refine (op_keeps stays (.setTickCount _)).bind fun _ => ?_
  split
  · exact (op_keeps stays (.setTickCount _)).bind fun _ => op_keeps stays .changeDrvCh
  · exact Program.keeps_ret _

theorem tick_keeps (stays : ∀ {o r}, TickOp o → P t o r t) (apply : applyCmd.Keeps P t) :
    tick.Keeps P t := by
  refine (op_keeps stays (.load _)).bind fun expired => ?_
  split
  · refine (op_keeps stays (.load _)).bind fun calibrating => ?_
    split
    · refine (op_keeps stays .expire).bind fun _ => ?_
      exact (work_keeps stays apply).bind fun _ => alive_keeps stays
    · exact Program.keeps_ret _
  · exact Program.keeps_ret _

end Keeps

end Server

end Lra
