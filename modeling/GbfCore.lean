import GbfCore.Blob.Agreement
import GbfCore.Blob.Truncation
import GbfCore.Crypto.GcmCache
import GbfCore.Manifest.Confinement
import GbfCore.Manifest.FileIndex
import GbfCore.Manifest.Newest
import GbfCore.Manifest.NoPanic
import GbfCore.Manifest.RegistryRuns
import GbfCore.Manifest.Retention
import GbfCore.Manifest.Sidecar
import GbfCore.Manifest.StructuredID
import GbfCore.Pipeline.DownloadToFile
import GbfCore.Pipeline.Ignore
import GbfCore.Pipeline.Pool
import GbfCore.Pipeline.RestoreLayout
import GbfCore.Pipeline.RestoreTree
import GbfCore.Pipeline.Times
import GbfCore.RateLimit.Tokens
import GbfCore.Repo.InitSafety
import GbfCore.Store.Existence
import GbfCore.Store.ExistsCache
import GbfCore.Store.Prefix
