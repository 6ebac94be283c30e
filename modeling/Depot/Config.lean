import Depot.Transfer.Hooks

/-!
# Configurations

What a gateway can be set up with, section by section. Everything has a default.
-/

namespace Depot

/-- The listener, and what this node is called. -/
structure ServerConfig where
  host : String := "0.0.0.0"
  port : Nat := 9012
  site : String := "site-a"
  /-- The name that failed requests report. -/
  moduleName : String := "accessor"
  /-- For how many seconds open requests may go on after the end was asked for. -/
  shutdownTimeout : Nat := 30
  deriving DecidableEq, Repr

structure TransferConfig where
  responseTimeout : Nat := 300000
  maxWait : Nat := 1000
  bufferSize : Nat := 131072
  digest : Bool := true
  compressionLevel : Int := 0
  deriving DecidableEq, Repr

structure CatalogConfig where
  engine : String := "sqlite"
  /-- Where a catalog on disk is kept. -/
  path : String := "./data/metadata.db"
  deriving DecidableEq, Repr

structure StorageConfig where
  backend : String := "local"
  /-- The directory of a storage on disk. -/
  root : String := "./data/objects"
  /-- How many bytes a storage in memory may hold; zero stands for any number. -/
  limit : Nat := 0
  deriving DecidableEq, Repr

structure PeerConfig where
  /-- Its address, empty if there is none. -/
  url : String := ""
  /-- For how many seconds a connection is waited for. -/
  connectTimeout : Nat := 10
  deriving DecidableEq, Repr

structure LogConfig where
  level : String := "info"
  format : String := "text"
  deriving DecidableEq, Repr

structure Config where
  server : ServerConfig := {}
  transfer : TransferConfig := {}
  catalog : CatalogConfig := {}
  storage : StorageConfig := {}
  peer : PeerConfig := {}
  log : LogConfig := {}
  /-- Whether counters are kept and exposed. -/
  metrics : Bool := true
  deriving DecidableEq, Repr

namespace Config

/-- The smallest size of the pieces in which answers are sent. -/
def minBuffer : Nat := 1024

def settings (c : Config) : Settings where
  responseTimeout := c.transfer.responseTimeout
  maxWait := c.transfer.maxWait
  bufferSize := max minBuffer c.transfer.bufferSize
  compressionLevel := c.transfer.compressionLevel
  moduleName := c.server.moduleName

end Config

end Depot
