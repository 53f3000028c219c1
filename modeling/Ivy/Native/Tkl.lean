/-!
# The adapter layer

Types shared by the drivers under `tuyaos_adapter`. A call of ESP-IDF is modelled by its
outcome: `true` is `ESP_OK`.
-/

namespace Ivy.Native

/-- The values of `OPERATE_RET` that the drivers return. -/
inductive OperateRet
  | ok
  | comError
  | invalidParm
  | notSupported
  deriving DecidableEq, Repr

end Ivy.Native
