import DiskStack.Sync.Channel
import DiskStack.Transport.Dialogue

/-!
# Events

What can be seen of a running machine, in the order in which it happens: waits and wake-ups, register
accesses, probe interrupts and the masking of interrupts.
-/

namespace DiskStack

inductive EventKind
  | scheduling
  | registers
  | interrupts
  | masking
  deriving DecidableEq, Repr

inductive Event
  | prepare (t : TaskId) (c : Channel)
  | sleep (t : TaskId)
  /-- A wait that ended before it began. -/
  | noSleep (t : TaskId)
  | wake (c : Channel) (released : List TaskId)
  | query (drive : UInt8) (q : Query) (answer : UInt32)
  | command (drive : UInt8) (c : Command)
  | probe (name : String) (t : TaskId) (enabled : Bool) (value : Option UInt64)
  | mask (t : TaskId)
  | unmask (t : TaskId)
  deriving DecidableEq, Repr

namespace Query

def render (q : Query) (answer : UInt32) : String :=
  match q with
  | .magic => s!"magic={answer}"
  | .version => s!"version={answer}"
  | .deviceId => s!"device_id={answer}"
  | .vendorId => s!"vendor_id={answer}"
  | .status => s!"get_status={answer}"
  | .deviceFeatures => s!"device_features={answer}"
  | .queueMaxSize => s!"queue_max_size={answer}"
  | .queueReady => s!"is_queue_ready={answer != 0}"
  | .interruptStatus => s!"interrupt_status={answer}"
  | .config offset => s!"read_config_u32 {offset}={answer}"

end Query

namespace Command

/-- An address within its page; which page it is depends on the run. -/
def pageText (address : UInt64) : String := s!"page+{address.toNat % 4096}"

def render : Command → String
  | .setStatus status => s!"set_status {status}"
  | .setDriverFeatures features => s!"set_driver_features {features}"
  | .selectQueue queue => s!"select_queue {queue}"
  | .setQueueSize size => s!"set_queue_size {size}"
  | .setDescriptorAddress address => "set_queue_desc_addr " ++ pageText address
  | .setAvailAddress address => "set_queue_avail_addr " ++ pageText address
  | .setUsedAddress address => "set_queue_used_addr " ++ pageText address
  | .enableQueue => "enable_queue"
  | .notifyQueue queue => s!"notify_queue {queue}"
  | .ackInterrupt causes => s!"ack_interrupt {causes}"

end Command

namespace Event

def kind : Event → EventKind
  | .prepare .. | .sleep _ | .noSleep _ | .wake .. => .scheduling
  | .query .. | .command .. => .registers
  | .probe .. => .interrupts
  | .mask _ | .unmask _ => .masking

def render (nameOf : TaskId → String) : Event → String
  | .prepare t c => s!"prep {nameOf t} {c.render}"
  | .sleep t => "sleep " ++ nameOf t
  | .noSleep t => "nosleep " ++ nameOf t
  | .wake c released =>
    "wake " ++ c.render ++ " [" ++ String.intercalate "," (released.map nameOf) ++ "]"
  | .query drive q answer => s!"d{drive} " ++ q.render answer
  | .command drive c => s!"d{drive} " ++ c.render
  | .probe name t enabled value =>
    let shown := match value with
      | some v => toString v
      | none => "null"
    "irq " ++ name ++ " on " ++ nameOf t ++ s!" enabled={enabled} mx=" ++ shown
  | .mask t => "cli " ++ nameOf t
  | .unmask t => "sti " ++ nameOf t

end Event

end DiskStack
