import RcProject.Client.LockStep
import RcProject.Server.Overflow

open rc_project.c_string rc_project.request_reply rc_project.scanf rc_project.transition
open rc_project.server (Locals ClientCommand received_command line)

namespace rc_project.client

section Fits

variable {call : Call} {memory : server.Memory}

end Fits

section Networks

variable {ι : Type} {address : ι → server.sockaddr_in} {start state : server.Server}
  {past : List server.Event} {i : ι}

end Networks

end rc_project.client
