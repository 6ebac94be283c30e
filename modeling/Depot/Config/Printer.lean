import Depot.Config
import Depot.Json

/-!
# Writing a configuration

A configuration as JSON, under the keys of its file. Every key is written, whether its value is the
default or not.
-/

namespace Depot

namespace Settings

/-- The settings under the keys of the section of transfers. -/
def fields (s : Settings) : List (String × Json) :=
  [("response_timeout_ms", .number s.responseTimeout), ("max_wait_ms", .number s.maxWait),
    ("buffer_size", .number s.bufferSize), ("compression_level", .number s.compressionLevel)]

def toJson (s : Settings) : Json := .object (s.fields ++ [("module", .string s.moduleName)])

end Settings

namespace Config

/-- The settings of transfers as they are written. -/
def written (c : TransferConfig) : Settings :=
  { responseTimeout := c.responseTimeout, maxWait := c.maxWait, bufferSize := c.bufferSize,
    compressionLevel := c.compressionLevel }

def toJson (c : Config) : Json := .object [
  ("server", .object [("host", .string c.server.host), ("port", .number c.server.port),
    ("site", .string c.server.site), ("module", .string c.server.moduleName),
    ("shutdown_timeout", .number c.server.shutdownTimeout)]),
  ("transfer", .object ((written c.transfer).fields ++ [("compute_sha256", .bool c.transfer.digest)])),
  ("metadata", .object [("engine", .string c.catalog.engine),
    ("sqlite", .object [("path", .string c.catalog.path)])]),
  ("storage", .object [("backend", .string c.storage.backend),
    ("local", .object [("root_dir", .string c.storage.root)]),
    ("memory", .object [("max_size_bytes", .number c.storage.limit)])]),
  ("replicator", .object [("peer_url", .string c.peer.url),
    ("connect_timeout", .number c.peer.connectTimeout)]),
  ("logging", .object [("level", .string c.log.level), ("format", .string c.log.format)]),
  ("observability", .object [("metrics", .bool c.metrics)])]

end Config

end Depot
